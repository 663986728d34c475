import Kaspad.Lib.GoMap

/-! # Programs that may stop between two writes

A computation on a disk is the list of the disks it leaves after each of its atomic writes, with its
answer. The process may stop at any disk of that list or before the first write, so a statement about
`Stops` is a statement about every point between two writes.
-/

namespace Lib
open List

def OnDisk (D ε α : Type) := D → List D × Except ε α

namespace OnDisk
variable {D ε α β : Type} {m : OnDisk D ε α} {f : α → OnDisk D ε β} {d d' : D}

def final (m : OnDisk D ε α) (d : D) : D := (m d).1.getLastD d

def answer (m : OnDisk D ε α) (d : D) : Except ε α := (m d).2

def Stops (m : OnDisk D ε α) (d d' : D) : Prop := d' ∈ d :: (m d).1

instance : Monad (OnDisk D ε) where
  pure a := fun _ => ([], .ok a)
  bind m f := fun d =>
    match m d with
    | (disks, .error e) => (disks, .error e)
    | (disks, .ok a) => (disks ++ (f a (disks.getLastD d)).1, (f a (disks.getLastD d)).2)

def read : OnDisk D ε D := fun d => ([], .ok d)

def write (w : D → D) : OnDisk D ε Unit := fun d => ([w d], .ok ())

def ofExcept (x : Except ε α) : OnDisk D ε α := fun _ => ([], x)

def writeAll : List (D → D) → OnDisk D ε Unit
  | [] => pure ()
  | w :: ws => do
    write w
    writeAll ws

/-! ## Sequencing -/

theorem bind_apply (m : OnDisk D ε α) (f : α → OnDisk D ε β) (d : D) : (m >>= f) d = match m.answer d with
      | .error e => ((m d).1, Except.error e)
      | .ok a => ((m d).1 ++ (f a (m.final d)).1, (f a (m.final d)).2) := by
  change (match m d with
    | (disks, .error e) => (disks, Except.error e)
    | (disks, .ok a) => (disks ++ (f a (disks.getLastD d)).1, (f a (disks.getLastD d)).2)) = _
  unfold answer final
  rcases m d with ⟨disks, _ | a⟩ <;> rfl

theorem bind_ok {a : α} (h : m.answer d = .ok a) :
    (m >>= f) d = ((m d).1 ++ (f a (m.final d)).1, (f a (m.final d)).2) := by
  rw [bind_apply, h]

theorem bind_error {e : ε} (h : m.answer d = .error e) : (m >>= f) d = ((m d).1, .error e) := by
  rw [bind_apply, h]

theorem answer_bind_ok {a : α} (h : m.answer d = .ok a) : (m >>= f).answer d = (f a).answer (m.final d) := by
  unfold answer
  rw [bind_ok h]

theorem final_bind_ok {a : α} (h : m.answer d = .ok a) : (m >>= f).final d = (f a).final (m.final d) := by
  have hlast : ∀ l l' : List D, (l ++ l').getLastD d = l'.getLastD (l.getLastD d) := by
    intro l l'
    simp [getLastD_eq_getLast?, List.getLast?_append, Option.getD_or]
  change ((m >>= f) d).1.getLastD d = _
  rw [bind_ok h]
  exact hlast _ _

theorem final_bind_error {e : ε} (h : m.answer d = .error e) : (m >>= f).final d = m.final d := by
  unfold final
  rw [bind_error h]

theorem Stops.bind (h : Stops (m >>= f) d d') :
    Stops m d d' ∨ ∃ a, m.answer d = .ok a ∧ Stops (f a) (m.final d) d' := by
  unfold Stops at h
  cases hanswer : m.answer d with
  | error e =>
    rw [bind_error hanswer] at h
    exact .inl h
  | ok a =>
    rw [bind_ok hanswer, mem_cons, mem_append] at h
    obtain h | h | h := h
    · exact .inl (by simp [Stops, h])
    · exact .inl (by simp [Stops, h])
    · exact .inr ⟨a, rfl, mem_cons_of_mem _ h⟩

variable (a : α)

@[simp] theorem answer_read : (read : OnDisk D ε D).answer d = .ok d := rfl

@[simp] theorem final_read : (read : OnDisk D ε D).final d = d := rfl

variable (x : Except ε α)

@[simp] theorem answer_ofExcept : (ofExcept x : OnDisk D ε α).answer d = x := rfl

@[simp] theorem final_ofExcept : (ofExcept x : OnDisk D ε α).final d = d := rfl

variable (w : D → D)

@[simp] theorem answer_write : (write w : OnDisk D ε Unit).answer d = .ok () := rfl

@[simp] theorem final_write : (write w : OnDisk D ε Unit).final d = w d := rfl

@[simp] theorem stops_pure : Stops (pure a : OnDisk D ε α) d d' ↔ d' = d := mem_singleton

@[simp] theorem stops_read : Stops (read : OnDisk D ε D) d d' ↔ d' = d := mem_singleton

@[simp] theorem stops_ofExcept : Stops (ofExcept x : OnDisk D ε α) d d' ↔ d' = d :=
  mem_singleton

@[simp] theorem stops_write : Stops (write w : OnDisk D ε Unit) d d' ↔ d' = d ∨ d' = w d := by
  simp [Stops, write]

theorem read_bind (f : D → OnDisk D ε α) (d : D) : (read >>= f) d = f d d := rfl

theorem ofExcept_ok_bind (f : α → OnDisk D ε β) : ((ofExcept (.ok a) : OnDisk D ε α) >>= f) = f a := rfl

theorem stops_dropLast (m : OnDisk D ε α) (d : D) : Stops m d ((m d).1.dropLast.getLastD d) := by
  rw [Stops, getLastD_eq_getLast?]
  cases hlast : (m d).1.dropLast.getLast? with
  | none => exact mem_cons_self
  | some d' => exact mem_cons_of_mem _ ((dropLast_sublist _).mem (mem_of_getLast? hlast))

theorem answer_writeAll (ws : List (D → D)) (d : D) : (writeAll ws : OnDisk D ε Unit).answer d = .ok () := by
  induction ws generalizing d with
  | nil => rfl
  | cons w ws ih => exact (answer_bind_ok (answer_write w)).trans (ih (w d))

theorem final_writeAll (ws : List (D → D)) (d : D) :
    (writeAll ws : OnDisk D ε Unit).final d = ws.foldl (fun d w => w d) d := by
  induction ws generalizing d with
  | nil => rfl
  | cons w ws ih => exact (final_bind_ok (answer_write w)).trans (ih (w d))

/-- Writes to one part of the disk. -/
theorem foldl_map_over {B : Type} {p : B → D} {g : (B → B) → D → D} (h : ∀ w b, g w (p b) = p (w b))
    (ws : List (B → B)) (b : B) :
    (ws.map g).foldl (fun d w => w d) (p b) = p (ws.foldl (fun b w => w b) b) := by
  induction ws generalizing b with
  | nil => rfl
  | cons w ws ih =>
    rw [map_cons, foldl_cons, h]
    exact ih (w b)

theorem Stops.writeAll {P : D → Prop} {ws : List (D → D)} (hws : ∀ w ∈ ws, ∀ d, P d → P (w d))
    (hd : P d) (h : Stops (OnDisk.writeAll ws : OnDisk D ε Unit) d d') : P d' := by
  induction ws generalizing d with
  | nil =>
    obtain rfl := (stops_pure ()).mp h
    exact hd
  | cons w ws ih =>
    obtain h | ⟨-, -, h⟩ := h.bind
    · obtain rfl | rfl := (stops_write w).mp h
      · exact hd
      · exact hws w (by simp) d hd
    · exact ih (fun w' hw' => hws w' (by simp [hw'])) (hws w (by simp) d hd) h

end OnDisk

/-! ## A bucket that is overwritten -/

namespace GoMap
variable {K V : Type} [DecidableEq K]

def overwrites (toRemove : List K) (toAdd : GoMap K V) : List (GoMap K V → GoMap K V) :=
  toRemove.map (fun k bucket => bucket.erase k) ++ toAdd.entries.map fun e bucket => bucket.insert e.1 e.2

theorem lookup_overwrites (toRemove : List K) (toAdd bucket : GoMap K V) (k : K) :
    ((overwrites toRemove toAdd).foldl (fun b w => w b) bucket).lookup k =
      (toAdd.lookup k).or (if k ∈ toRemove then none else bucket.lookup k) := by
  have herase := lookup_deletes id toRemove bucket k
  have hadd := lookup_addMapped id toAdd (toRemove.foldl (fun b k => b.erase k) bucket) k
  rw [map_id] at herase
  rw [Option.map_id_fun, id, show (toRemove.foldl (fun b k => b.erase k) bucket).lookup k = _ from herase] at hadd
  rw [overwrites, foldl_append, foldl_map, foldl_map]
  exact hadd

theorem overwrites_elsewhere {toRemove : List K} {toAdd : GoMap K V} {w : GoMap K V → GoMap K V}
    (hw : w ∈ overwrites toRemove toAdd) {k : K} (hk : k ∉ toRemove) (hk' : toAdd.lookup k = none)
    (bucket : GoMap K V) : (w bucket).lookup k = bucket.lookup k := by
  obtain hw | hw := mem_append.mp hw
  · obtain ⟨k', hk'', rfl⟩ := mem_map.mp hw
    have hne : k ≠ k' := fun heq => hk (heq ▸ hk'')
    simp [hne]
  obtain ⟨e, he, rfl⟩ := mem_map.mp hw
  have hne : k ≠ e.1 := by
    intro heq
    rw [heq, (mem_entries_iff toAdd e).mp he] at hk'
    cases hk'
  simp [hne]

end GoMap
end Lib
