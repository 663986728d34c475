import Kaspad.Lib.GoMap
import Kaspad.Lib.Prog

/-! # The address manager

`AddressManager` and `addressStore` of `infrastructure/network/addressmanager`. The database is given by
its operations, any of which may fail; the maps are written before it. A loop over the addresses that
are not banned visits them in an order that is given with the call.
-/

namespace Kaspad.AddressManager
open Lib Prog

/-! ## Network addresses

The addresses of peers and `IsRoutable`, from `infrastructure/network/addressmanager/network.go`, with what
it uses of the `net` package. A network is given by its number in the shorter of its two forms, which is
the form that `Contains` compares.
-/

structure NetAddress where
  /-- in milliseconds -/
  timestamp : ℤ
  ip : Option (List UInt8)
  port : UInt16
  deriving DecidableEq

/-! ## `net.IP` and `net.IPNet` -/

def v4InV6 : List UInt8 := List.replicate 10 0 ++ [0xff, 0xff]

def to4 (ip : List UInt8) : Option (List UInt8) :=
  if ip.length = 4 then some ip
  else if ip.length = 16 ∧ ip.take 12 = v4InV6 then some (ip.drop 12)
  else none

def to16 (ip : List UInt8) : List UInt8 :=
  if ip.length = 4 then v4InV6 ++ ip else if ip.length = 16 then ip else []

def ipEqual (ip x : List UInt8) : Bool :=
  if ip.length = x.length then ip = x
  else if ip.length = 4 ∧ x.length = 16 then x.take 12 = v4InV6 ∧ ip = x.drop 12
  else if ip.length = 16 ∧ x.length = 4 then ip.take 12 = v4InV6 ∧ ip.drop 12 = x
  else false

structure IPNet where
  ip : List UInt8
  ones : ℕ

def maskByte (ones i : ℕ) : UInt8 :=
  let n := ones - 8 * i
  if 8 ≤ n then 0xff else ~~~((0xff : UInt8) >>> UInt8.ofNat n)

def IPNet.contains (n : IPNet) (ip : List UInt8) : Bool :=
  let ip := (to4 ip).getD ip
  ip.length = n.ip.length ∧
    (n.ip.zip ip).zipIdx.all fun ((a, b), i) => a &&& maskByte n.ones i == b &&& maskByte n.ones i

def isLoopback (ip : List UInt8) : Bool :=
  match to4 ip with
  | some ip4 => ip4.head? = some 127
  | none => ipEqual ip (List.replicate 15 0 ++ [1])

def isUnspecified (ip : List UInt8) : Bool :=
  ipEqual ip (v4InV6 ++ [0, 0, 0, 0]) || ipEqual ip (List.replicate 16 0)

/-! ## `IsRoutable` -/

def rfc1918Nets : List IPNet := [⟨[10, 0, 0, 0], 8⟩, ⟨[172, 16, 0, 0], 12⟩, ⟨[192, 168, 0, 0], 16⟩]
def rfc2544Net : IPNet := ⟨[198, 18, 0, 0], 15⟩
def rfc3849Net : IPNet := ⟨[0x20, 0x01, 0x0d, 0xb8] ++ List.replicate 12 0, 32⟩
def rfc3927Net : IPNet := ⟨[169, 254, 0, 0], 16⟩
def rfc4193Net : IPNet := ⟨0xfc :: List.replicate 15 0, 7⟩
def rfc4843Net : IPNet := ⟨[0x20, 0x01, 0x00, 0x10] ++ List.replicate 12 0, 28⟩
def rfc4862Net : IPNet := ⟨[0xfe, 0x80] ++ List.replicate 14 0, 64⟩
def rfc5737Net : List IPNet := [⟨[192, 0, 2, 0], 24⟩, ⟨[198, 51, 100, 0], 24⟩, ⟨[203, 0, 113, 0], 24⟩]
def rfc6598Net : IPNet := ⟨[100, 64, 0, 0], 10⟩
def zero4Net : IPNet := ⟨[0, 0, 0, 0], 8⟩

def NetAddress.bytes (na : NetAddress) : List UInt8 := na.ip.getD []

def isIn (nets : List IPNet) (na : NetAddress) : Bool := nets.any (·.contains na.bytes)

def isLocal (na : NetAddress) : Bool := isLoopback na.bytes || zero4Net.contains na.bytes
def isRFC1918 : NetAddress → Bool := isIn rfc1918Nets
def isRFC2544 : NetAddress → Bool := isIn [rfc2544Net]
def isRFC3849 : NetAddress → Bool := isIn [rfc3849Net]
def isRFC3927 : NetAddress → Bool := isIn [rfc3927Net]
def isRFC4193 : NetAddress → Bool := isIn [rfc4193Net]
def isRFC4843 : NetAddress → Bool := isIn [rfc4843Net]
def isRFC4862 : NetAddress → Bool := isIn [rfc4862Net]
def isRFC5737 : NetAddress → Bool := isIn rfc5737Net
def isRFC6598 : NetAddress → Bool := isIn [rfc6598Net]

def isValid (na : NetAddress) : Bool :=
  na.ip.isSome && !(isUnspecified na.bytes || ipEqual na.bytes (v4InV6 ++ [255, 255, 255, 255]))

def isRoutable (na : NetAddress) (acceptUnroutable : Bool) : Bool :=
  if acceptUnroutable then !isLocal na
  else
    isValid na && !(isRFC1918 na || isRFC2544 na || isRFC3927 na || isRFC4862 na || isRFC3849 na ||
      isRFC4843 na || isRFC5737 na || isRFC6598 na || isLocal na || isRFC4193 na)

def maxAddresses : ℕ := 4096
def connectionFailedCountForRemove : UInt64 := 4

structure Address where
  netAddress : NetAddress
  connectionFailedCount : UInt64
  deriving DecidableEq

structure AddressKey where
  port : UInt16
  address : List UInt8
  deriving DecidableEq

def netAddressKey (netAddress : NetAddress) : AddressKey where
  port := netAddress.port
  address := (to16 netAddress.bytes ++ List.replicate 16 0).take 16

structure Database (D E : Type) where
  putNotBanned : AddressKey → Address → Prog D E Unit
  deleteNotBanned : AddressKey → Prog D E Unit
  putBanned : List UInt8 → Address → Prog D E Unit
  deleteBanned : List UInt8 → Prog D E Unit

inductive ManagerError (E : Type)
  /-- `address … is not in the store` -/
  | notInStore
  /-- `address … is not registered with the address manager` -/
  | notRegistered
  | errAddressNotFound
  | database (err : E)
  deriving DecidableEq

structure Manager (D : Type) where
  notBannedAddresses : GoMap AddressKey Address
  bannedAddresses : GoMap (List UInt8) Address
  database : D

variable {D E : Type}

abbrev Method (D E α : Type) := Prog (Manager D) (ManagerError E) α

abbrev Order := AddressKey → ℕ

def write (m : Prog D E Unit) : Method D E Unit :=
  ExceptT.mk fun am => ((exec m am.database).1.mapError .database, { am with database := (exec m am.database).2 })

/-! ## The store -/

variable (db : Database D E)

def add (key : AddressKey) (address : Address) : Method D E Unit := do
  let am ← get
  if (am.notBannedAddresses.lookup key).isSome then pure ()
  else
    set { am with notBannedAddresses := am.notBannedAddresses.insert key address }
    write (db.putNotBanned key address)

def updateNotBanned (key : AddressKey) (address : Address) : Method D E Unit := do
  let am ← get
  if (am.notBannedAddresses.lookup key).isNone then throw .notInStore
  else
    set { am with notBannedAddresses := am.notBannedAddresses.insert key address }
    write (db.putNotBanned key address)

def remove (key : AddressKey) : Method D E Unit := do
  modify fun am => { am with notBannedAddresses := am.notBannedAddresses.erase key }
  write (db.deleteNotBanned key)

def addBanned (key : AddressKey) (address : Address) : Method D E Unit := do
  let am ← get
  if (am.bannedAddresses.lookup key.address).isSome then pure ()
  else
    set { am with bannedAddresses := am.bannedAddresses.insert key.address address }
    write (db.putBanned key.address address)

def removeBanned (key : AddressKey) : Method D E Unit := do
  modify fun am => { am with bannedAddresses := am.bannedAddresses.erase key.address }
  write (db.deleteBanned key.address)

def getAllNotBanned (order : Order) (am : Manager D) : List Address :=
  (GoMap.pairsBy order am.notBannedAddresses).map Prod.snd

def getAllNotBannedNetAddresses (order : Order) (am : Manager D) : List NetAddress :=
  (GoMap.pairsBy order am.notBannedAddresses).map (·.2.netAddress)

def getAllNotBannedNetAddressesWithout (order : Order) (ignoredAddresses : List NetAddress) (am : Manager D) :
    List Address :=
  ((GoMap.pairsBy order am.notBannedAddresses).filter (·.1 ∉ ignoredAddresses.map netAddressKey)).map Prod.snd

/-! ## The manager -/

/-- The address that a full store gives up; the count of the first one is not looked at. -/
def addressToRemove : List Address → Option Address
  | [] => none
  | first :: rest =>
    some (rest.foldl (fun found address =>
      if address.connectionFailedCount > found.2 then (address, address.connectionFailedCount) else found)
      (first, 0)).1

/-- The end of `addAddressNoLock`. -/
def limitAddresses (order : Order) : Method D E Unit := do
  let am ← get
  if maxAddresses < am.notBannedAddresses.size then
    match addressToRemove (getAllNotBanned order am) with
    | some toRemove => remove db (netAddressKey toRemove.netAddress)
    | none => pure ()
  else pure ()

def addAddressNoLock (acceptUnroutable : Bool) (netAddress : NetAddress) (order : Order) : Method D E Unit := do
  if !isRoutable netAddress acceptUnroutable then pure ()
  else
    add db (netAddressKey netAddress) ⟨netAddress, 1⟩
    limitAddresses db order

def addAddresses (acceptUnroutable : Bool) : List (NetAddress × Order) → Method D E Unit
  | [] => pure ()
  | (netAddress, order) :: addresses => do
    addAddressNoLock db acceptUnroutable netAddress order
    addAddresses acceptUnroutable addresses

def removeAddress (address : NetAddress) : Method D E Unit := remove db (netAddressKey address)

def markConnectionFailure (address : NetAddress) : Method D E Unit := do
  let key := netAddressKey address
  match (← get).notBannedAddresses.lookup key with
  | none => throw .notRegistered
  | some entry =>
    let connectionFailedCount := entry.connectionFailedCount + 1
    if connectionFailedCountForRemove ≤ connectionFailedCount then remove db key
    else updateNotBanned db key { entry with connectionFailedCount := connectionFailedCount }

def markConnectionSuccess (address : NetAddress) : Method D E Unit := do
  let key := netAddressKey address
  match (← get).notBannedAddresses.lookup key with
  | none => throw .notRegistered
  | some entry => updateNotBanned db key { entry with connectionFailedCount := 0 }

def ban (addressToBan : NetAddress) (order : Order) : Method D E Unit := do
  let keyToBan := netAddressKey addressToBan
  let keys := (getAllNotBannedNetAddresses order (← get)).map netAddressKey
  (keys.filter (·.address = keyToBan.address)).forM (remove db)
  addBanned db keyToBan ⟨addressToBan, 0⟩

def unban (address : NetAddress) : Method D E Unit := do
  let key := netAddressKey address
  if ((← get).bannedAddresses.lookup key.address).isNone then throw .errAddressNotFound
  else removeBanned db key

def maxBanTime : ℤ := 24 * 60 * 60 * 1000

def unbanIfOldEnough (key : AddressKey) (now : ℤ) : Method D E Unit := do
  match (← get).bannedAddresses.lookup key.address with
  | none => pure ()
  | some address => if maxBanTime < now - address.netAddress.timestamp then removeBanned db key else pure ()

def isBanned (address : NetAddress) (now : ℤ) : Method D E Bool := do
  let key := netAddressKey address
  unbanIfOldEnough db key now
  let am ← get
  if (am.bannedAddresses.lookup key.address).isNone then
    if (am.notBannedAddresses.lookup key).isNone then throw .errAddressNotFound else pure false
  else pure true

def addresses (order : Order) (am : Manager D) : List NetAddress := getAllNotBannedNetAddresses order am

/-- `weightedRand` of `n` weights: whether the scan has reached the random point is given. -/
def weightedRand (reached : ℕ → Bool) (n : ℕ) : ℕ := ((List.range n).find? reached).getD (n - 1)

def randomAddresses (order : Order) (reached : ℕ → ℕ → Bool) (count : ℕ) (exceptions : List NetAddress)
    (am : Manager D) : List NetAddress :=
  let valid := getAllNotBannedNetAddressesWithout order exceptions am
  (List.range (min count valid.length)).filterMap fun i =>
    valid[weightedRand (reached i) valid.length]?.map (·.netAddress)

inductive Operation
  | addAddress (address : NetAddress) (order : Order)
  | addAddresses (addresses : List (NetAddress × Order))
  | removeAddress (address : NetAddress)
  | markConnectionFailure (address : NetAddress)
  | markConnectionSuccess (address : NetAddress)
  | ban (addressToBan : NetAddress) (order : Order)
  | unban (address : NetAddress)
  | isBanned (address : NetAddress) (now : ℤ)

def perform (acceptUnroutable : Bool) : Operation → Method D E Unit
  | .addAddress address order => addAddressNoLock db acceptUnroutable address order
  | .addAddresses list => addAddresses db acceptUnroutable list
  | .removeAddress address => removeAddress db address
  | .markConnectionFailure address => markConnectionFailure db address
  | .markConnectionSuccess address => markConnectionSuccess db address
  | .ban addressToBan order => ban db addressToBan order
  | .unban address => unban db address
  | .isBanned address now => discard (isBanned db address now)

end Kaspad.AddressManager
