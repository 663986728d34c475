import Kaspad.AddressManager.Manager

/-! # Banned addresses among the others

No address that is not banned has a banned IP, as long as no address of a banned IP is added. `AddAddress`
does not look at the banned addresses, so an address that arrives after its IP was banned is handed out again.
-/

namespace Kaspad.AddressManager
open Lib Prog List GoMap

variable {D E : Type}

/-! ## What the methods of the store do -/

def Filed (am : Manager D) : Prop :=
  ∀ key address, am.notBannedAddresses.lookup key = some address → netAddressKey address.netAddress = key

def Clean (am : Manager D) : Prop :=
  ∀ key address, am.notBannedAddresses.lookup key = some address →
    am.bannedAddresses.lookup (netAddressKey address.netAddress).address = none

structure Shrinks (am am' : Manager D) : Prop where
  notBanned {key : AddressKey} {address : Address} :
    am'.notBannedAddresses.lookup key = some address → am.notBannedAddresses.lookup key = some address
  banned {ip : List UInt8} : am.bannedAddresses.lookup ip = none → am'.bannedAddresses.lookup ip = none

theorem Shrinks.refl (am : Manager D) : Shrinks am am := ⟨id, id⟩

variable {am am' : Manager D} (h : Shrinks am am')
include h

theorem Shrinks.trans {am'' : Manager D} (h' : Shrinks am' am'') : Shrinks am am'' :=
  ⟨fun hkey => h.notBanned (h'.notBanned hkey), fun hip => h'.banned (h.banned hip)⟩

theorem Shrinks.filed (hfiled : Filed am) : Filed am' :=
  fun key address hkey => hfiled key address (h.notBanned hkey)

theorem Shrinks.clean (hclean : Clean am) : Clean am' :=
  fun key address hkey => h.banned (hclean key address (h.notBanned hkey))

omit h
section
variable (db : Database D E) (am : Manager D) (key : AddressKey) (address : Address)

@[simp] theorem notBanned_write (m : Prog D E Unit) :
    (exec (write m : Method D E Unit) am).2.notBannedAddresses = am.notBannedAddresses := rfl

@[simp] theorem banned_write (m : Prog D E Unit) :
    (exec (write m : Method D E Unit) am).2.bannedAddresses = am.bannedAddresses := rfl

theorem exec_remove : exec (remove db key) am =
    exec (write (db.deleteNotBanned key)) { am with notBannedAddresses := am.notBannedAddresses.erase key } := rfl

theorem shrinks_remove : Shrinks am (exec (remove db key) am).2 := by
  rw [exec_remove]
  refine ⟨fun {k a} hk => ?_, fun h => h⟩
  rw [notBanned_write, lookup_delete] at hk
  split_ifs at hk
  exact hk

theorem lookup_remove_self : (exec (remove db key) am).2.notBannedAddresses.lookup key = none := by
  rw [exec_remove, notBanned_write, lookup_delete, if_pos rfl]

theorem shrinks_removeBanned : Shrinks am (exec (removeBanned db key) am).2 := by
  change Shrinks am (exec (write (db.deleteBanned key.address)) _).2
  refine ⟨fun hk => hk, fun {ip} hip => ?_⟩
  rw [banned_write, lookup_delete]
  split_ifs
  · rfl
  · exact hip

theorem shrinks_forM_remove (keys : List AddressKey) : Shrinks am (exec (keys.forM (remove db)) am).2 ∧
      ((exec (keys.forM (remove db)) am).1 = .ok ⟨⟩ →
        ∀ k ∈ keys, (exec (keys.forM (remove db)) am).2.notBannedAddresses.lookup k = none) := by
  induction keys generalizing am with
  | nil => exact ⟨.refl am, fun _ k hk => by cases hk⟩
  | cons first keys ih =>
    have hfirst := shrinks_remove db am first
    have hgone := lookup_remove_self db am first
    rw [show (first :: keys).forM (remove db) = (remove db first >>= fun _ => keys.forM (remove db)) from rfl,
      exec_bind]
    rcases hexec : exec (remove db first) am with ⟨err | _, am'⟩ <;> rw [hexec] at hfirst hgone
    · exact ⟨hfirst, fun h => by cases h⟩
    obtain ⟨hrest, hnone⟩ := ih am'
    refine ⟨hfirst.trans hrest, fun hok k hk => ?_⟩
    rcases mem_cons.mp hk with rfl | hk
    · cases hlookup : (exec (keys.forM (remove db)) am').2.notBannedAddresses.lookup k with
      | none => rfl
      | some address =>
        have hbefore := hrest.notBanned hlookup
        rw [hgone] at hbefore
        cases hbefore
    · exact hnone hok k hk

end

/-! ## One operation -/

section
variable (db : Database D E) (acceptUnroutable : Bool) {am : Manager D} {address : NetAddress} {order : Order}

def GivenUp (am : Manager D) (address : NetAddress) (order : Order) : Prop :=
  let added := exec (add db (netAddressKey address) ⟨address, 1⟩) am
  added.1 = .ok ⟨⟩ ∧ maxAddresses < added.2.notBannedAddresses.size ∧
    ∃ removed, addressToRemove (getAllNotBanned order added.2) = some removed ∧
      netAddressKey removed.netAddress = netAddressKey address

def Admissible (am : Manager D) (address : NetAddress) (order : Order) : Prop :=
  isRoutable address acceptUnroutable →
    am.bannedAddresses.lookup (netAddressKey address).address = none ∨ GivenUp db am address order

theorem shrinks_limitAddresses (am : Manager D) : Shrinks am (exec (limitAddresses db order) am).2 := by
  unfold limitAddresses
  rw [exec_bind, exec_get]
  dsimp only
  split_ifs
  · cases addressToRemove (getAllNotBanned order am) with
    | none => exact .refl am
    | some removed => exact shrinks_remove db am _
  · exact .refl am

variable {entry new : Address} {key : AddressKey}

theorem lookup_limitAddresses (hkey : am.notBannedAddresses.lookup key = some entry)
    (h : maxAddresses < am.notBannedAddresses.size → ∀ removed,
      addressToRemove (getAllNotBanned order am) = some removed → netAddressKey removed.netAddress ≠ key) :
    (exec (limitAddresses db order) am).2.notBannedAddresses.lookup key = some entry := by
  unfold limitAddresses
  rw [exec_bind, exec_get]
  dsimp only
  split_ifs with hfull
  · cases hremoved : addressToRemove (getAllNotBanned order am) with
    | none => exact hkey
    | some removed =>
      rw [exec_remove, notBanned_write, lookup_delete, if_neg (h hfull removed hremoved).symm]
      exact hkey
  · exact hkey

theorem banned_limitAddresses (am : Manager D) :
    (exec (limitAddresses db order) am).2.bannedAddresses = am.bannedAddresses := by
  unfold limitAddresses
  rw [exec_bind, exec_get]
  dsimp only
  split_ifs
  · cases addressToRemove (getAllNotBanned order am) <;> rfl
  · rfl

theorem exec_add_of_some (h : am.notBannedAddresses.lookup key = some entry) :
    exec (add db key new) am = (.ok ⟨⟩, am) := by
  unfold add
  rw [exec_bind, exec_get]
  dsimp only
  rw [h, if_pos (Option.isSome_some), exec_pure]

theorem exec_add_of_none (h : am.notBannedAddresses.lookup key = none) :
    exec (add db key new) am = exec (write (db.putNotBanned key new))
        { am with notBannedAddresses := am.notBannedAddresses.insert key new } := by
  unfold add
  rw [exec_bind, exec_get]
  dsimp only
  rw [h, if_neg (by simp)]
  rfl

theorem exec_addAddressNoLock_of_routable (hroutable : isRoutable address acceptUnroutable = true) :
    exec (addAddressNoLock db acceptUnroutable address order) am =
      exec (add db (netAddressKey address) ⟨address, 1⟩ >>= fun _ => limitAddresses db order) am := by
  unfold addAddressNoLock
  rw [hroutable]
  rfl

theorem exec_addAddressNoLock_of_not_routable (hroutable : ¬isRoutable address acceptUnroutable = true) :
    exec (addAddressNoLock db acceptUnroutable address order) am = (.ok ⟨⟩, am) := by
  unfold addAddressNoLock
  rw [Bool.not_eq_true] at hroutable
  rw [hroutable]
  rfl

theorem lookup_added {k : AddressKey} (m : Prog D E Unit) (h : (exec (write m : Method D E Unit)
      { am with notBannedAddresses := am.notBannedAddresses.insert key new }).2.notBannedAddresses.lookup k =
      some entry) :
    k = key ∧ entry = new ∨ k ≠ key ∧ am.notBannedAddresses.lookup k = some entry := by
  rw [notBanned_write, lookup_set] at h
  split_ifs at h with hk
  · exact .inl ⟨hk, (Option.some.inj h).symm⟩
  · exact .inr ⟨hk, h⟩

theorem keeps_filed_add (address : NetAddress) : Keeps Filed (add db (netAddressKey address) ⟨address, 1⟩) := by
  intro am hfiled
  cases hkey : am.notBannedAddresses.lookup (netAddressKey address) with
  | some entry => rwa [exec_add_of_some db hkey]
  | none =>
    rw [exec_add_of_none db hkey]
    intro k entry hk
    obtain ⟨rfl, rfl⟩ | ⟨-, hk⟩ := lookup_added _ hk
    · rfl
    · exact hfiled k entry hk

theorem keeps_filed_addAddressNoLock (address : NetAddress) (order : Order) :
    Keeps Filed (addAddressNoLock db acceptUnroutable address order) := by
  intro am hfiled
  by_cases hroutable : isRoutable address acceptUnroutable = true
  · rw [exec_addAddressNoLock_of_routable db acceptUnroutable hroutable]
    exact (keeps_filed_add db address).bind
      (fun _ am' hfiled' => (shrinks_limitAddresses db am').filed hfiled') am hfiled
  · rwa [exec_addAddressNoLock_of_not_routable db acceptUnroutable hroutable]

variable (hkey : am.notBannedAddresses.lookup (netAddressKey address) = none)
include hkey

theorem givenUp_of_clean {banned : Address}
    (hbanned : am.bannedAddresses.lookup (netAddressKey address).address = some banned)
    (hclean : Clean (exec (add db (netAddressKey address) ⟨address, 1⟩ >>= fun _ => limitAddresses db order) am).2) :
    GivenUp db am address order := by
  have hnot : ∀ am' : Manager D, Clean am' → am'.bannedAddresses = am.bannedAddresses →
      am'.notBannedAddresses.lookup (netAddressKey address) = some ⟨address, 1⟩ → False := by
    intro am' hclean' heq hlookup
    have hnone := hclean' _ _ hlookup
    rw [heq, hbanned] at hnone
    cases hnone
  unfold GivenUp
  rw [exec_bind, exec_add_of_none db hkey] at hclean
  rw [exec_add_of_none db hkey]
  rcases hwrite : exec (write (db.putNotBanned (netAddressKey address) ⟨address, 1⟩) : Method D E Unit)
    { am with notBannedAddresses := am.notBannedAddresses.insert (netAddressKey address) ⟨address, 1⟩ }
    with ⟨err | _, am'⟩
  all_goals
    have hnew : am'.notBannedAddresses = am.notBannedAddresses.insert (netAddressKey address) ⟨address, 1⟩ :=
      congrArg (fun r => r.2.notBannedAddresses) hwrite.symm
    have hsame : am'.bannedAddresses = am.bannedAddresses := congrArg (fun r => r.2.bannedAddresses) hwrite.symm
    have hlookup : am'.notBannedAddresses.lookup (netAddressKey address) = some ⟨address, 1⟩ := by
      rw [hnew, lookup_set, if_pos rfl]
    rw [hwrite] at hclean
  · exact (hnot am' hclean hsame hlookup).elim
  have hbannedAfter : (exec (limitAddresses db order) am').2.bannedAddresses = am.bannedAddresses := by
    rw [banned_limitAddresses, hsame]
  by_contra hkept
  refine hnot _ hclean hbannedAfter (lookup_limitAddresses db hlookup fun hfull removed hremoved heq => ?_)
  exact hkept ⟨rfl, hfull, removed, hremoved, heq⟩

theorem clean_add (hnone : am.bannedAddresses.lookup (netAddressKey address).address = none)
    (hclean : Clean am) : Clean (exec (add db (netAddressKey address) ⟨address, 1⟩) am).2 := by
  rw [exec_add_of_none db hkey]
  intro k entry hk
  rw [banned_write]
  obtain ⟨rfl, rfl⟩ | ⟨-, hk⟩ := lookup_added _ hk
  · exact hnone
  · exact hclean k entry hk

theorem clean_of_givenUp (hgiven : GivenUp db am address order) (hclean : Clean am) :
    Clean (exec (add db (netAddressKey address) ⟨address, 1⟩ >>= fun _ => limitAddresses db order) am).2 := by
  obtain ⟨hok, hfull, removed, hremoved, heq⟩ := hgiven
  rw [exec_bind_ok (Prod.ext hok rfl), limitAddresses, exec_bind, exec_get]
  dsimp only
  rw [if_pos hfull, hremoved]
  dsimp only
  rw [heq, exec_remove]
  intro k entry hk
  rw [notBanned_write, lookup_delete] at hk
  split_ifs at hk with hne
  rw [exec_add_of_none db hkey] at hk ⊢
  obtain ⟨rfl, -⟩ | ⟨-, hk⟩ := lookup_added _ hk
  · exact absurd rfl hne
  · exact hclean k entry hk

omit hkey

theorem clean_addAddressNoLock_iff (address : NetAddress) (order : Order) (hfiled : Filed am) (hclean : Clean am) :
    Clean (exec (addAddressNoLock db acceptUnroutable address order) am).2 ↔
      Admissible db acceptUnroutable am address order := by
  by_cases hroutable : isRoutable address acceptUnroutable = true
  case neg =>
    rw [exec_addAddressNoLock_of_not_routable db acceptUnroutable hroutable]
    exact ⟨fun _ h => absurd h hroutable, fun _ => hclean⟩
  rw [exec_addAddressNoLock_of_routable db acceptUnroutable hroutable]
  cases hkey : am.notBannedAddresses.lookup (netAddressKey address) with
  | some entry =>
    -- The address is known already, so its IP is not banned and the store only shrinks.
    have hnone : am.bannedAddresses.lookup (netAddressKey address).address = none := by
      rw [← hfiled _ _ hkey]
      exact hclean _ _ hkey
    rw [exec_bind, exec_add_of_some db hkey]
    exact ⟨fun _ _ => .inl hnone, fun _ => (shrinks_limitAddresses db am).clean hclean⟩
  | none =>
    constructor
    · intro hafter _
      cases hbanned : am.bannedAddresses.lookup (netAddressKey address).address with
      | none => exact .inl rfl
      | some banned => exact .inr (givenUp_of_clean db hkey hbanned hafter)
    intro hadmissible
    rcases hadmissible hroutable with hnone | hgiven
    · have hadd : Leads (· = am) Clean (add db (netAddressKey address) ⟨address, 1⟩) := by
        rintro _ rfl
        exact clean_add db hkey hnone hclean
      exact hadd.bind (fun _ am' hclean' => (shrinks_limitAddresses db am').clean hclean') am rfl
    · exact clean_of_givenUp db hkey hgiven hclean

/-- A property that stays when addresses or bans are removed or counts change. -/
structure Stable (P : Manager D → Prop) : Prop where
  shrinks {am am' : Manager D} : Shrinks am am' → P am → P am'
  update {am : Manager D} {key : AddressKey} {entry new : Address} (m : Prog D E Unit) :
    am.notBannedAddresses.lookup key = some entry → new.netAddress = entry.netAddress → P am →
      P (exec (write m : Method D E Unit) { am with notBannedAddresses := am.notBannedAddresses.insert key new }).2

theorem stable_filed : Stable (E := E) (Filed (D := D)) where
  shrinks h hfiled := h.filed hfiled
  update m hkey hnew hfiled := by
    intro k a hk
    obtain ⟨rfl, rfl⟩ | ⟨-, hk⟩ := lookup_added m hk
    · rw [hnew]
      exact hfiled _ _ hkey
    · exact hfiled k a hk

theorem stable_clean : Stable (E := E) (Clean (D := D)) where
  shrinks h hclean := h.clean hclean
  update m hkey hnew hclean := by
    intro k a hk
    rw [banned_write]
    obtain ⟨rfl, rfl⟩ | ⟨-, hk⟩ := lookup_added m hk
    · rw [hnew]
      exact hclean _ _ hkey
    · exact hclean k a hk

section
variable {P : Manager D → Prop} (hP : Stable (E := E) P)
include hP

theorem Stable.updateNotBanned {key : AddressKey} {entry new : Address}
    (hkey : am.notBannedAddresses.lookup key = some entry) (hnew : new.netAddress = entry.netAddress) (h : P am) :
    P (exec (updateNotBanned db key new) am).2 := by
  have hexec : exec (AddressManager.updateNotBanned db key new) am =
      exec (write (db.putNotBanned key new))
        { am with notBannedAddresses := am.notBannedAddresses.insert key new } := by
    unfold AddressManager.updateNotBanned
    rw [exec_bind, exec_get]
    dsimp only
    rw [hkey, if_neg (by simp)]
    rfl
  rw [hexec]
  exact hP.update _ hkey hnew h

theorem Stable.markConnectionFailure (address : NetAddress) : Keeps P (AddressManager.markConnectionFailure db address) := by
  intro am h
  unfold AddressManager.markConnectionFailure
  rw [exec_bind, exec_get]
  dsimp only
  cases hkey : am.notBannedAddresses.lookup (netAddressKey address) with
  | none => exact h
  | some entry =>
    dsimp only
    split_ifs
    · exact hP.shrinks (shrinks_remove db am _) h
    · exact hP.updateNotBanned db hkey rfl h

theorem Stable.markConnectionSuccess (address : NetAddress) : Keeps P (AddressManager.markConnectionSuccess db address) := by
  intro am h
  unfold AddressManager.markConnectionSuccess
  rw [exec_bind, exec_get]
  dsimp only
  cases hkey : am.notBannedAddresses.lookup (netAddressKey address) with
  | none => exact h
  | some entry => exact hP.updateNotBanned db hkey rfl h

theorem Stable.unban (address : NetAddress) : Keeps P (AddressManager.unban db address) := by
  intro am h
  unfold AddressManager.unban
  rw [exec_bind, exec_get]
  dsimp only
  split_ifs
  · exact h
  · exact hP.shrinks (shrinks_removeBanned db am _) h

theorem Stable.unbanIfOldEnough (key : AddressKey) (now : ℤ) : Keeps P (AddressManager.unbanIfOldEnough db key now) := by
  intro am h
  unfold AddressManager.unbanIfOldEnough
  rw [exec_bind, exec_get]
  dsimp only
  cases am.bannedAddresses.lookup key.address with
  | none => exact h
  | some banned =>
    dsimp only
    split_ifs
    · exact hP.shrinks (shrinks_removeBanned db am _) h
    · exact h

theorem Stable.isBanned (address : NetAddress) (now : ℤ) : Keeps P (AddressManager.isBanned db address now) := by
  refine (hP.unbanIfOldEnough db _ now).bind fun _ => keeps_get_bind fun am _ => ?_
  split_ifs
  · exact keeps_throw _
  · exact keeps_pure _
  · exact keeps_pure _

end

theorem clean_addBanned
    (hnone : ∀ k address, am.notBannedAddresses.lookup k = some address → k.address ≠ key.address)
    (hfiled : Filed am) (hclean : Clean am) : Clean (exec (addBanned db key new) am).2 := by
  unfold addBanned
  rw [exec_bind, exec_get]
  dsimp only
  split_ifs
  · exact hclean
  intro k entry (hk : am.notBannedAddresses.lookup k = some entry)
  have hlookup : (am.bannedAddresses.insert key.address new).lookup (netAddressKey entry.netAddress).address = none := by
    rw [lookup_set, if_neg]
    · exact hclean k entry hk
    rw [hfiled k entry hk]
    exact hnone k entry hk
  exact hlookup

theorem keeps_filed_addBanned (key : AddressKey) (new : Address) : Keeps Filed (addBanned db key new) := by
  intro am hfiled
  unfold addBanned
  rw [exec_bind, exec_get]
  dsimp only
  split_ifs <;> exact hfiled

variable (addressToBan : NetAddress)

theorem exec_ban (order : Order) (am : Manager D) : exec (ban db addressToBan order) am =
      exec ((((getAllNotBannedNetAddresses order am).map netAddressKey).filter
        (·.address = (netAddressKey addressToBan).address)).forM (remove db) >>= fun _ =>
          addBanned db (netAddressKey addressToBan) ⟨addressToBan, 0⟩) am := rfl

theorem keeps_filed_ban (order : Order) : Keeps Filed (ban db addressToBan order) := by
  intro am hfiled
  rw [exec_ban]
  have hloop : ∀ keys : List AddressKey, Keeps Filed (keys.forM (remove db)) := fun keys =>
    keeps_forM fun key _ am' h => (shrinks_remove db am' key).filed h
  exact (hloop _).bind (fun _ => keeps_filed_addBanned db _ _) am hfiled

theorem clean_ban (order : Order) (hfiled : Filed am) (hclean : Clean am) :
    Clean (exec (ban db addressToBan order) am).2 := by
  rw [exec_ban]
  generalize hkeys : ((getAllNotBannedNetAddresses order am).map netAddressKey).filter
    (·.address = (netAddressKey addressToBan).address) = keys
  obtain ⟨hshrinks, hgone⟩ := shrinks_forM_remove db am keys
  rw [exec_bind]
  rcases hexec : exec (keys.forM (remove db)) am with ⟨err | _, am'⟩ <;> rw [hexec] at hshrinks hgone
  · exact hshrinks.clean hclean
  refine clean_addBanned db (fun k entry hk heq => ?_) (hshrinks.filed hfiled) (hshrinks.clean hclean)
  -- The address stood in the store before the loop, under its own key, and was removed.
  have hbefore := hshrinks.notBanned hk
  have hmem : k ∈ keys := by
    rw [← hkeys, mem_filter]
    refine ⟨?_, by simpa using heq⟩
    rw [← hfiled k entry hbefore]
    refine mem_map_of_mem ?_
    exact mem_map.mpr ⟨(k, entry), mem_pairsBy.mpr hbefore, rfl⟩
  have hnone := hgone rfl k hmem
  rw [hk] at hnone
  cases hnone

/-! ## Runs -/

def AllAdmissible : List (NetAddress × Order) → Manager D → Prop
  | [], _ => True
  | (address, order) :: addresses, am =>
    Admissible db acceptUnroutable am address order ∧
      ∀ am', exec (addAddressNoLock db acceptUnroutable address order) am = (.ok ⟨⟩, am') →
        AllAdmissible addresses am'

def Allowed : Operation → Manager D → Prop
  | .addAddress address order, am => Admissible db acceptUnroutable am address order
  | .addAddresses list, am => AllAdmissible db acceptUnroutable list am
  | _, _ => True

def addedStates : List (NetAddress × Order) → Manager D → List (Manager D)
  | [], _ => []
  | (address, order) :: addresses, am =>
    match exec (addAddressNoLock db acceptUnroutable address order) am with
    | (.error _, am') => [am']
    | (.ok _, am') => am' :: addedStates addresses am'

def passes : Operation → Manager D → List (Manager D)
  | .addAddresses list, am => addedStates db acceptUnroutable list am
  | operation, am => [(exec (perform db acceptUnroutable operation) am).2]

variable (list : List (NetAddress × Order))

theorem clean_addedStates_iff (hfiled : Filed am) (hclean : Clean am) :
    (∀ am' ∈ addedStates db acceptUnroutable list am, Clean am') ↔ AllAdmissible db acceptUnroutable list am := by
  induction list generalizing am with
  | nil => simp [addedStates, AllAdmissible]
  | cons first list ih =>
    obtain ⟨address, order⟩ := first
    have hfiled' := keeps_filed_addAddressNoLock db acceptUnroutable address order am hfiled
    have hiff := clean_addAddressNoLock_iff db acceptUnroutable address order hfiled hclean
    unfold addedStates AllAdmissible
    rcases hexec : exec (addAddressNoLock db acceptUnroutable address order) am with ⟨err | _, am'⟩ <;>
      rw [hexec] at hfiled' hiff
    · rw [← hiff]
      simp
    rw [← hiff]
    constructor
    · intro h
      refine ⟨h am' mem_cons_self, fun am'' heq => ?_⟩
      obtain rfl := (Prod.mk.inj heq).2
      exact (ih hfiled' (h am' mem_cons_self)).mp fun s hs => h s (mem_cons_of_mem _ hs)
    rintro ⟨hclean', hrest⟩ s hs
    rcases mem_cons.mp hs with rfl | hs
    · exact hclean'
    · exact (ih hfiled' hclean').mpr (hrest am' rfl) s hs

theorem exec_addAddresses_mem (am : Manager D) : (exec (addAddresses db acceptUnroutable list) am).2 = am ∨
      (exec (addAddresses db acceptUnroutable list) am).2 ∈ addedStates db acceptUnroutable list am := by
  induction list generalizing am with
  | nil => exact .inl rfl
  | cons first list ih =>
    obtain ⟨address, order⟩ := first
    refine .inr ?_
    unfold addAddresses addedStates
    rw [exec_bind]
    rcases exec (addAddressNoLock db acceptUnroutable address order) am with ⟨err | _, am'⟩
    · exact mem_singleton_self am'
    rcases ih am' with h | h
    · exact mem_cons.mpr (.inl h)
    · exact mem_cons_of_mem _ h

theorem keeps_filed_addAddresses : Keeps Filed (addAddresses db acceptUnroutable list) := by
  induction list with
  | nil => exact keeps_pure _
  | cons first list ih => exact (keeps_filed_addAddressNoLock db acceptUnroutable first.1 first.2).bind fun _ => ih

variable (operation : Operation)

theorem keeps_filed_perform : Keeps Filed (perform db acceptUnroutable operation) := by
  cases operation with
  | addAddress address order => exact keeps_filed_addAddressNoLock db acceptUnroutable address order
  | addAddresses list => exact keeps_filed_addAddresses db acceptUnroutable list
  | removeAddress address => exact fun am h => (shrinks_remove db am _).filed h
  | markConnectionFailure address => exact stable_filed.markConnectionFailure db address
  | markConnectionSuccess address => exact stable_filed.markConnectionSuccess db address
  | ban addressToBan order => exact keeps_filed_ban db addressToBan order
  | unban address => exact stable_filed.unban db address
  | isBanned address now => exact (stable_filed.isBanned db address now).discard

theorem clean_passes_iff (hfiled : Filed am) (hclean : Clean am) :
    (∀ am' ∈ passes db acceptUnroutable operation am, Clean am') ↔ Allowed db acceptUnroutable operation am := by
  have hone : ∀ {m : Method D E Unit} {allowed : Prop}, (Clean (exec m am).2 ↔ allowed) →
      ((∀ am' ∈ [(exec m am).2], Clean am') ↔ allowed) := fun h => by simpa using h
  cases operation with
  | addAddress address order => exact hone (clean_addAddressNoLock_iff db acceptUnroutable address order hfiled hclean)
  | addAddresses list => exact clean_addedStates_iff db acceptUnroutable list hfiled hclean
  | removeAddress address => exact hone (iff_of_true ((shrinks_remove db am _).clean hclean) trivial)
  | markConnectionFailure address =>
    exact hone (iff_of_true (stable_clean.markConnectionFailure db address am hclean) trivial)
  | markConnectionSuccess address =>
    exact hone (iff_of_true (stable_clean.markConnectionSuccess db address am hclean) trivial)
  | ban addressToBan order => exact hone (iff_of_true (clean_ban db addressToBan order hfiled hclean) trivial)
  | unban address => exact hone (iff_of_true (stable_clean.unban db address am hclean) trivial)
  | isBanned address now =>
    exact hone (iff_of_true ((stable_clean.isBanned db address now).discard am hclean) trivial)

theorem exec_perform_mem (am : Manager D) : (exec (perform db acceptUnroutable operation) am).2 = am ∨
      (exec (perform db acceptUnroutable operation) am).2 ∈ passes db acceptUnroutable operation am := by
  cases operation with
  | addAddresses list => exact exec_addAddresses_mem db acceptUnroutable list am
  | _ => exact .inr (mem_singleton_self _)

/-- The states of the runs whose operations all have `P` where they are called. -/
inductive Reachable (P : Operation → Manager D → Prop) : Manager D → Prop
  | start (database : D) : Reachable P ⟨∅, ∅, database⟩
  | step {am : Manager D} (operation : Operation) : Reachable P am → P operation am →
      Reachable P (exec (perform db acceptUnroutable operation) am).2

theorem Reachable.filed {P : Operation → Manager D → Prop} (h : Reachable db acceptUnroutable P am) : Filed am := by
  induction h with
  | start database => exact fun key address h => by simp at h
  | step operation _ _ ih => exact keeps_filed_perform db acceptUnroutable operation _ ih

theorem Reachable.clean (h : Reachable db acceptUnroutable (Allowed db acceptUnroutable) am) : Clean am := by
  induction h with
  | start database => exact fun key address h => by simp at h
  | @step am operation hreach hallowed ih =>
    have hpasses := (clean_passes_iff db acceptUnroutable operation hreach.filed ih).mpr hallowed
    rcases exec_perform_mem db acceptUnroutable operation am with heq | hmem
    · rw [heq]
      exact ih
    · exact hpasses _ hmem

end

theorem Clean.addresses (hclean : Clean am) (order : Order) :
    ∀ address ∈ addresses order am, am.bannedAddresses.lookup (netAddressKey address).address = none := by
  intro address haddress
  obtain ⟨⟨key, entry⟩, hmem, rfl⟩ := mem_map.mp haddress
  exact hclean key entry (mem_pairsBy.mp hmem)

theorem Clean.randomAddresses (hclean : Clean am) (order : Order) (reached : ℕ → ℕ → Bool)
    (count : ℕ) (exceptions : List NetAddress) : ∀ address ∈ randomAddresses order reached count exceptions am,
      am.bannedAddresses.lookup (netAddressKey address).address = none := by
  intro address haddress
  obtain ⟨i, -, hi⟩ := mem_filterMap.mp haddress
  obtain ⟨entry, hentry, rfl⟩ := Option.map_eq_some_iff.mp hi
  obtain ⟨⟨key, entry'⟩, hmem, rfl⟩ := mem_map.mp (mem_of_getElem? hentry)
  exact hclean key entry' (mem_pairsBy.mp (mem_of_mem_filter hmem))

/-- No address with a banned IP is kept or handed out, exactly as long as the operations are allowed. -/
theorem bannedStayOut_iff_allowed (db : Database D E) (acceptUnroutable : Bool) :
    (∀ am, Reachable db acceptUnroutable (Allowed db acceptUnroutable) am → Clean am ∧
      (∀ order, ∀ address ∈ addresses order am, am.bannedAddresses.lookup (netAddressKey address).address = none) ∧
      ∀ order reached count exceptions, ∀ address ∈ randomAddresses order reached count exceptions am,
        am.bannedAddresses.lookup (netAddressKey address).address = none) ∧
    ∀ am, Reachable db acceptUnroutable (fun _ _ => True) am → Clean am → ∀ operation,
      (∀ am' ∈ passes db acceptUnroutable operation am, Clean am') ↔ Allowed db acceptUnroutable operation am := by
  refine ⟨fun am hreach => ?_, fun am hreach hclean operation => ?_⟩
  · have hclean := hreach.clean db acceptUnroutable
    exact ⟨hclean, hclean.addresses, hclean.randomAddresses⟩
  · exact clean_passes_iff db acceptUnroutable operation (hreach.filed db acceptUnroutable) hclean

/-! ## A run -/

def memory : Database Unit Unit where
  putNotBanned _ _ := pure ()
  deleteNotBanned _ := pure ()
  putBanned _ _ := pure ()
  deleteBanned _ := pure ()

def misbehaving : NetAddress := ⟨0, some [8, 8, 4, 4], 16111⟩
def wellBehaved : NetAddress := ⟨0, some [8, 8, 8, 8], 16111⟩

def afterBan (arriving : NetAddress) : Manager Unit :=
  (exec (perform memory false (.addAddress arriving fun _ => 0))
    (exec (perform memory false (.ban misbehaving fun _ => 0)) ⟨∅, ∅, ()⟩).2).2

theorem bannedStayOut_iff_allowed_afterBan : addresses (fun _ => 0) (afterBan wellBehaved) = [wellBehaved] ∧
      (afterBan wellBehaved).bannedAddresses.lookup (netAddressKey wellBehaved).address = none := by
  have hlist : addresses (fun _ => 0) (afterBan wellBehaved) = [wellBehaved] := by decide +kernel
  have hreach : Reachable memory false (Allowed memory false) (afterBan wellBehaved) :=
    ((Reachable.start ()).step (.ban misbehaving fun _ => 0) trivial).step (.addAddress wellBehaved fun _ => 0)
      fun _ => .inl (by decide +kernel)
  obtain ⟨-, haddresses, -⟩ := (bannedStayOut_iff_allowed memory false).1 _ hreach
  exact ⟨hlist, haddresses (fun _ => 0) wellBehaved (by rw [hlist]; exact mem_singleton_self _)⟩

/-- The banned peer is added again, and is handed out. -/
theorem banned_address_is_handed_out : Reachable memory false (fun _ _ => True) (afterBan misbehaving) ∧
      addresses (fun _ => 0) (afterBan misbehaving) = [misbehaving] ∧
      randomAddresses (fun _ => 0) (fun _ _ => true) 1 [] (afterBan misbehaving) = [misbehaving] ∧
      (exec (isBanned memory misbehaving 0) (afterBan misbehaving)).1 = .ok true := by
  refine ⟨?_, by decide +kernel, by decide +kernel, by decide +kernel⟩
  exact ((Reachable.start ()).step (.ban misbehaving fun _ => 0) trivial).step
    (.addAddress misbehaving fun _ => 0) trivial

end Kaspad.AddressManager
