import JobWatch.Executions
import JobWatch.Proofs.Selection
import Mathlib.Data.List.Induction

/-!
# The table of running executions agrees with the list of them

The index of the table gives exactly the places of the names that stand in it. Hence what is found
under a name in the table of some executions is the last of them under that name.
-/

set_option autoImplicit false

namespace JobWatch

def Execution.under (name : String) (e : Execution) : Option Execution :=
  if e.job.key.dotted = name then some e else none

def lastUnder (name : String) (es : List Execution) : Option Execution :=
  (es.filterMap (Execution.under name)).getLast?

theorem lastUnder_concat (name : String) (es : List Execution) (e : Execution) :
    lastUnder name (es ++ [e]) =
      if e.job.key.dotted = name then some e else lastUnder name es := by
  unfold lastUnder
  rw [List.filterMap_append]
  by_cases h : e.job.key.dotted = name <;> simp [Execution.under, h]

namespace Executions

theorem get?_eq (x : Executions) (name : String) :
    x.get? name = (x.index[name]?).bind fun place => (x.entries[place]?).map Prod.snd := by
  unfold get?
  cases x.index[name]? with
  | none => rfl
  | some place => cases h : x.entries[place]? <;> simp [h]

/-- The index gives the place of a name, and no other names or places. -/
def Coherent (x : Executions) : Prop :=
  ∀ (name : String) (place : Nat),
    x.index[name]? = some place ↔ (x.entries[place]?).map Prod.fst = some name

theorem empty_coherent : empty.Coherent := by
  intro name place
  simp [empty]

theorem Coherent.index_lt {x : Executions} (hx : x.Coherent) {name : String} {place : Nat}
    (h : x.index[name]? = some place) : place < x.entries.size := by
  obtain ⟨entry, hentry, -⟩ := Option.map_eq_some_iff.mp ((hx name place).mp h)
  exact (Array.getElem?_eq_some_iff.mp hentry).1

theorem insert_coherent {x : Executions} (hx : x.Coherent) (name : String) (e : Execution) :
    (x.insert name e).Coherent := by
  intro other place
  unfold insert
  split
  next known hknown =>
    -- names keep their places when an entry is overwritten
    rw [hx other place, Array.getElem?_modify]
    split
    next => cases x.entries[place]? <;> simp
    next => rfl
  next hnew =>
    rw [Std.HashMap.getElem?_insert, Array.getElem?_push]
    by_cases hname : name = other
    · subst hname
      by_cases hplace : place = x.entries.size
      · simp [hplace]
      · have habsent : (x.entries[place]?).map Prod.fst ≠ some name := by
          intro h
          rw [(hx name place).mpr h] at hnew
          cases hnew
        simp only [beq_self_eq_true, if_true, Option.some.injEq, hplace, if_false, habsent,
          iff_false]
        exact Ne.symm hplace
    · have hbeq : (name == other) = false := by simp [hname]
      rw [hbeq, if_neg (by simp), hx other place]
      by_cases hplace : place = x.entries.size
      · simp [hplace, hname]
      · simp [hplace]

theorem get?_insert {x : Executions} (hx : x.Coherent) (name other : String) (e : Execution) :
    (x.insert name e).get? other = if name = other then some e else x.get? other := by
  rw [get?_eq, get?_eq]
  unfold insert
  split
  next known hknown =>
    by_cases hname : name = other
    · subst hname
      obtain ⟨entry, hentry, -⟩ := Option.map_eq_some_iff.mp ((hx name known).mp hknown)
      simp [hknown, Array.getElem?_modify, hentry]
    · rw [if_neg hname]
      cases hplace : x.index[other]? with
      | none => rfl
      | some place =>
        have hne : known ≠ place := by
          rintro rfl
          have h := ((hx name known).mp hknown).symm.trans ((hx other known).mp hplace)
          exact hname (Option.some.inj h)
        simp [Array.getElem?_modify, hne]
  next hnew =>
    rw [Std.HashMap.getElem?_insert]
    by_cases hname : name = other
    · simp [hname]
    · rw [if_neg (by simpa using hname), if_neg hname]
      cases hplace : x.index[other]? with
      | none => rfl
      | some place =>
        have hlt := hx.index_lt hplace
        simp [Array.getElem?_push, Nat.ne_of_lt hlt]

def ofEntries (entries : List (String × Execution)) : Executions :=
  entries.foldl (fun x entry => x.insert entry.1 entry.2) empty

def latest? (name : String) (entries : List (String × Execution)) : Option Execution :=
  ((entries.filter (·.1 = name)).getLast?).map Prod.snd

theorem ofEntries_concat (entries : List (String × Execution)) (entry : String × Execution) :
    ofEntries (entries ++ [entry]) = (ofEntries entries).insert entry.1 entry.2 := by
  simp [ofEntries]

theorem latest?_concat (name : String) (entries : List (String × Execution))
    (entry : String × Execution) :
    latest? name (entries ++ [entry]) =
      if entry.1 = name then some entry.2 else latest? name entries := by
  by_cases h : entry.1 = name <;> simp [latest?, h]

theorem ofEntries_coherent (entries : List (String × Execution)) : (ofEntries entries).Coherent := by
  induction entries using List.reverseRecOn with
  | nil => exact empty_coherent
  | append_singleton entries entry ih =>
    rw [ofEntries_concat]
    exact insert_coherent ih _ _

theorem get?_ofEntries (entries : List (String × Execution)) (name : String) :
    (ofEntries entries).get? name = latest? name entries := by
  induction entries using List.reverseRecOn with
  | nil => simp [ofEntries, empty, get?, latest?]
  | append_singleton entries entry ih =>
    rw [ofEntries_concat, get?_insert (ofEntries_coherent entries), latest?_concat, ih]

def entry (e : Execution) : String × Execution := (e.job.key.dotted, e)

theorem ofList_eq (es : List Execution) : ofList es = ofEntries (es.map entry) := by
  simp [ofList, ofEntries, entry, List.foldl_map]

theorem latest?_map_entry (name : String) (es : List Execution) :
    latest? name (es.map entry) = lastUnder name es := by
  induction es using List.reverseRecOn with
  | nil => rfl
  | append_singleton es e ih =>
    rw [List.map_append, List.map_singleton, latest?_concat, ih, lastUnder_concat]
    rfl

theorem get?_ofList (es : List Execution) (name : String) :
    (ofList es).get? name = lastUnder name es := by
  rw [ofList_eq, get?_ofEntries, latest?_map_entry]

end Executions

end JobWatch
