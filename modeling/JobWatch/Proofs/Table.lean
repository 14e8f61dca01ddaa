import JobWatch.Proofs.Catalog.Consistency
import JobWatch.Proofs.History
import Mathlib.Data.List.Induction

/-!
# Tables that are edited in place

A value that is put into a table takes the place of the one with its key, or comes last; what is
taken out leaves the others where they are. What the table holds then follows from its history:
under each key the latest value, in the order in which the keys came.
-/

set_option autoImplicit false

namespace JobWatch

theorem filter_key_of_mem {α κ : Type} [DecidableEq κ] {keyOf : α → κ} {l : List α}
    (hl : (l.map keyOf).Nodup) {a : α} (ha : a ∈ l) :
    (l.filter fun b => keyOf b = keyOf a) = [a] := by
  induction l with
  | nil => cases ha
  | cons b l ih =>
    obtain ⟨hb, hl⟩ := List.nodup_cons.mp hl
    rcases List.mem_cons.mp ha with rfl | ha
    · have hrest : (l.filter fun b => keyOf b = keyOf a) = [] := by
        apply List.filter_eq_nil_iff.mpr
        intro b hb' hkey
        exact hb (of_decide_eq_true hkey ▸ List.mem_map_of_mem hb')
      rw [List.filter_cons, if_pos (decide_eq_true rfl), hrest]
    · have hne : keyOf b ≠ keyOf a := fun hkey => hb (hkey ▸ List.mem_map_of_mem ha)
      rw [List.filter_cons, if_neg (by simpa using hne), ih hl ha]

/-- What the operations of a history do to a table: the value that an operation puts under its key,
and the keys that it takes out, which may hang on what was done before. -/
structure Edits (ω α κ : Type) where
  keyOf : α → κ
  put? : ω → Option α
  Takes : List ω → ω → κ → Prop
  not_takes : ∀ past op key, (put? op).isSome → ¬ Takes past op key

namespace Edits

variable {ω α κ : Type} [DecidableEq κ] (E : Edits ω α κ)

def putUnder? (key : κ) (op : ω) : Option α := (E.put? op).filter fun a => E.keyOf a = key

def latest? (key : κ) (history : List ω) : Option α :=
  (history.filterMap (E.putUnder? key)).getLast?

/-- A value was put under a key, and the key was not taken out since. -/
def Present (key : κ) : List ω → Prop :=
  Since (fun _ op => (E.putUnder? key op).isSome) fun past op => E.Takes past op key

/-- A key came with the operation at a place: the first one to put a value under it since it was
last taken out. -/
def CameAt (key : κ) (place : Nat) : List ω → Prop :=
  Since (fun past op => past.length = place ∧ (E.putUnder? key op).isSome ∧ ¬ E.Present key past)
    fun past op => E.Takes past op key

def CameBefore (history : List ω) (key key' : κ) : Prop :=
  ∃ i j, i < j ∧ E.CameAt key i history ∧ E.CameAt key' j history

/-- A list has, of the keys that are present, the latest values if they are of a kind, each once and
in the order in which the keys came. -/
structure Lists (history : List ω) (kind : α → Prop) (l : List α) : Prop where
  mem_iff : ∀ a, a ∈ l ↔
    E.Present (E.keyOf a) history ∧ E.latest? (E.keyOf a) history = some a ∧ kind a
  distinct : (l.map E.keyOf).Nodup
  order : (l.map E.keyOf).Pairwise (E.CameBefore history)

variable {E}

theorem putUnder?_of_put {op : ω} {a : α} (hop : E.put? op = some a) (key : κ) :
    E.putUnder? key op = if E.keyOf a = key then some a else none := by
  by_cases hkey : E.keyOf a = key <;> simp [putUnder?, hop, Option.filter, hkey]

theorem putUnder?_of_not_put {op : ω} (hop : E.put? op = none) (key : κ) :
    E.putUnder? key op = none := by
  rw [putUnder?, hop]
  rfl

theorem keyOf_of_putUnder? {key : κ} {op : ω} {a : α} (h : E.putUnder? key op = some a) :
    E.keyOf a = key :=
  of_decide_eq_true (Option.filter_eq_some_iff.mp h).2

theorem not_takes_of_putUnder? {key : κ} {op : ω} (h : (E.putUnder? key op).isSome)
    (past : List ω) (other : κ) : ¬ E.Takes past op other := by
  obtain ⟨a, ha⟩ := Option.isSome_iff_exists.mp h
  apply E.not_takes
  rw [(Option.filter_eq_some_iff.mp ha).1]
  rfl

theorem latest?_concat (key : κ) (history : List ω) (op : ω) :
    E.latest? key (history ++ [op]) = (E.putUnder? key op).or (E.latest? key history) := by
  unfold latest?
  cases h : E.putUnder? key op <;> simp [h]

theorem keyOf_of_latest? {key : κ} {history : List ω} {a : α}
    (h : E.latest? key history = some a) : E.keyOf a = key := by
  obtain ⟨op, -, hop⟩ := List.mem_filterMap.mp (List.mem_of_getLast? h)
  exact keyOf_of_putUnder? hop

theorem present_concat_iff (key : κ) (history : List ω) (op : ω) :
    E.Present key (history ++ [op]) ↔
      (E.putUnder? key op).isSome ∨ E.Present key history ∧ ¬ E.Takes history op key :=
  since_concat_iff _ _ _ _

theorem cameAt_concat_iff (key : κ) (place : Nat) (history : List ω) (op : ω) :
    E.CameAt key place (history ++ [op]) ↔
      (history.length = place ∧ (E.putUnder? key op).isSome ∧ ¬ E.Present key history) ∨
      E.CameAt key place history ∧ ¬ E.Takes history op key :=
  since_concat_iff _ _ _ _

theorem Present.exists_latest? {key : κ} {history : List ω} (h : E.Present key history) :
    ∃ a, E.latest? key history = some a := by
  obtain ⟨before, op, after, rfl, hop, -⟩ := h
  obtain ⟨a, ha⟩ := Option.isSome_iff_exists.mp hop
  have hmem : a ∈ (before ++ op :: after).filterMap (E.putUnder? key) :=
    List.mem_filterMap.mpr ⟨op, by simp, ha⟩
  exact Option.isSome_iff_exists.mp (List.getLast?_isSome.mpr (List.ne_nil_of_mem hmem))

theorem CameAt.present {key : κ} {place : Nat} {history : List ω}
    (h : E.CameAt key place history) : E.Present key history := by
  obtain ⟨before, op, after, heq, ⟨-, hop, -⟩, hafter⟩ := h
  exact ⟨before, op, after, heq, hop, hafter⟩

theorem CameAt.lt {key : κ} {place : Nat} {history : List ω} (h : E.CameAt key place history) :
    place < history.length := by
  obtain ⟨before, op, after, rfl, ⟨hplace, -, -⟩, -⟩ := h
  simp only [List.length_append, List.length_cons]
  omega

theorem exists_cameAt {key : κ} {history : List ω} (h : E.Present key history) :
    ∃ place, E.CameAt key place history := by
  induction history using List.reverseRecOn with
  | nil => exact absurd h (not_since_nil _ _)
  | append_singleton history op ih =>
    simp only [cameAt_concat_iff]
    by_cases hbefore : E.Present key history
    · obtain ⟨place, hplace⟩ := ih hbefore
      refine ⟨place, .inr ⟨hplace, ?_⟩⟩
      rcases (present_concat_iff key history op).mp h with hput | ⟨-, hstays⟩
      · exact not_takes_of_putUnder? hput history key
      · exact hstays
    · rcases (present_concat_iff key history op).mp h with hput | ⟨hpresent, -⟩
      · exact ⟨history.length, .inl ⟨rfl, hput, hbefore⟩⟩
      · exact absurd hpresent hbefore

theorem CameAt.unique {key : κ} {i j : Nat} {history : List ω} (hi : E.CameAt key i history)
    (hj : E.CameAt key j history) : i = j := by
  induction history using List.reverseRecOn with
  | nil => exact absurd hi (not_since_nil _ _)
  | append_singleton history op ih =>
    rw [cameAt_concat_iff] at hi hj
    rcases hi with ⟨rfl, -, hnew⟩ | ⟨hi, -⟩
    · rcases hj with ⟨rfl, -, -⟩ | ⟨hj, -⟩
      · rfl
      · exact absurd hj.present hnew
    · rcases hj with ⟨rfl, -, hnew⟩ | ⟨hj, -⟩
      · exact absurd hi.present hnew
      · exact ih hi hj

theorem existsUnique_cameAt {key : κ} {history : List ω} (h : E.Present key history) :
    ∃! place, E.CameAt key place history := by
  obtain ⟨place, hplace⟩ := exists_cameAt h
  exact ⟨place, hplace, fun other hother => hother.unique hplace⟩

theorem CameBefore.concat {history : List ω} {op : ω} {key key' : κ}
    (h : E.CameBefore history key key') (hkey : ¬ E.Takes history op key)
    (hkey' : ¬ E.Takes history op key') : E.CameBefore (history ++ [op]) key key' := by
  obtain ⟨i, j, hij, hi, hj⟩ := h
  refine ⟨i, j, hij, ?_, ?_⟩
  · exact (cameAt_concat_iff key i history op).mpr (.inr ⟨hi, hkey⟩)
  · exact (cameAt_concat_iff key' j history op).mpr (.inr ⟨hj, hkey'⟩)

theorem lists_nil (kind : α → Prop) : E.Lists [] kind [] := by
  constructor
  · intro a
    simp [Present, not_since_nil]
  · exact List.nodup_nil
  · exact .nil

section Step

variable {history : List ω} {op : ω} {kind : α → Prop} {l : List α}

theorem Lists.present_iff (h : E.Lists history (fun _ => True) l) (key : κ) :
    key ∈ l.map E.keyOf ↔ E.Present key history := by
  constructor
  · intro hkey
    obtain ⟨a, ha, rfl⟩ := List.mem_map.mp hkey
    exact ((h.mem_iff a).mp ha).1
  · intro hpresent
    obtain ⟨a, ha⟩ := hpresent.exists_latest?
    obtain rfl := keyOf_of_latest? ha
    exact List.mem_map_of_mem ((h.mem_iff a).mpr ⟨hpresent, ha, trivial⟩)

theorem Lists.filter (h : E.Lists history kind l) (keep : α → Bool) :
    E.Lists history (fun a => kind a ∧ keep a = true) (l.filter keep) := by
  constructor
  · intro a
    rw [List.mem_filter, h.mem_iff]
    simp only [and_assoc]
  · exact h.distinct.sublist (List.filter_sublist.map E.keyOf)
  · exact h.order.sublist (List.filter_sublist.map E.keyOf)

/-- A value that is put takes the place of the one with its key, or comes last. -/
theorem Lists.put (h : E.Lists history (fun _ => True) l) {a : α} (hop : E.put? op = some a) :
    E.Lists (history ++ [op]) (fun _ => True) (replaceOrAppend E.keyOf a l) := by
  have hstays : ∀ key, ¬ E.Takes history op key :=
    fun key => E.not_takes history op key (by rw [hop]; rfl)
  have horder : (l.map E.keyOf).Pairwise (E.CameBefore (history ++ [op])) := by
    apply h.order.imp
    intro key key' hkeys
    exact hkeys.concat (hstays key) (hstays key')
  constructor
  · intro b
    rw [mem_replaceOrAppend E.keyOf a h.distinct, h.mem_iff, present_concat_iff, latest?_concat,
      putUnder?_of_put hop]
    by_cases hkey : E.keyOf a = E.keyOf b
    · simp [hkey, eq_comm]
    · have hne : b ≠ a := fun hba => hkey (by rw [hba])
      simp [hkey, Ne.symm hkey, hne, hstays]
  · exact nodup_map_replaceOrAppend E.keyOf a h.distinct
  · rw [map_replaceOrAppend]
    by_cases hold : E.keyOf a ∈ l.map E.keyOf
    · rw [if_pos hold]
      exact horder
    · rw [if_neg hold, List.pairwise_append]
      refine ⟨horder, List.pairwise_singleton _ _, ?_⟩
      intro key hkey last hlast
      obtain rfl := List.mem_singleton.mp hlast
      obtain ⟨i, hi⟩ := exists_cameAt ((h.present_iff key).mp hkey)
      refine ⟨i, history.length, hi.lt, ?_, ?_⟩
      · exact (cameAt_concat_iff key i history op).mpr (.inr ⟨hi, hstays key⟩)
      · apply (cameAt_concat_iff _ _ history op).mpr
        refine .inl ⟨rfl, ?_, fun hpresent => hold ((h.present_iff _).mpr hpresent)⟩
        rw [putUnder?_of_put hop, if_pos rfl]
        rfl

/-- What is taken out leaves the others where they are. -/
theorem Lists.take (h : E.Lists history (fun _ => True) l) (hop : E.put? op = none)
    {keep : α → Bool} (hkeep : ∀ a ∈ l, keep a = true ↔ ¬ E.Takes history op (E.keyOf a)) :
    E.Lists (history ++ [op]) (fun _ => True) (l.filter keep) := by
  constructor
  · intro a
    rw [List.mem_filter, present_concat_iff, latest?_concat, putUnder?_of_not_put hop]
    constructor
    · rintro ⟨ha, hkept⟩
      obtain ⟨hpresent, hlatest, -⟩ := (h.mem_iff a).mp ha
      exact ⟨.inr ⟨hpresent, (hkeep a ha).mp hkept⟩, hlatest, trivial⟩
    · rintro ⟨hput | ⟨hpresent, hstays⟩, hlatest, -⟩
      · cases hput
      · have ha := (h.mem_iff a).mpr ⟨hpresent, hlatest, trivial⟩
        exact ⟨ha, (hkeep a ha).mpr hstays⟩
  · exact h.distinct.sublist (List.filter_sublist.map E.keyOf)
  · have hsublist := List.filter_sublist (l := l) (p := keep)
    apply (h.order.sublist (hsublist.map E.keyOf)).imp_of_mem
    intro key key' hkey hkey' hbefore
    obtain ⟨a, ha, rfl⟩ := List.mem_map.mp hkey
    obtain ⟨b, hb, rfl⟩ := List.mem_map.mp hkey'
    obtain ⟨ha, hkeptA⟩ := List.mem_filter.mp ha
    obtain ⟨hb, hkeptB⟩ := List.mem_filter.mp hb
    exact hbefore.concat ((hkeep a ha).mp hkeptA) ((hkeep b hb).mp hkeptB)

/-- What neither puts nor takes out changes nothing. -/
theorem Lists.stay (h : E.Lists history (fun _ => True) l) (hop : E.put? op = none)
    (hstays : ∀ key, ¬ E.Takes history op key) : E.Lists (history ++ [op]) (fun _ => True) l := by
  have hall : E.Lists (history ++ [op]) (fun _ => True) (l.filter fun _ => true) :=
    h.take hop fun a _ => iff_of_true rfl (hstays (E.keyOf a))
  rwa [List.filter_true] at hall

end Step

end Edits

end JobWatch
