import JobWatch.Proofs.Executions
import Mathlib.Data.List.Nodup

/-!
# Tables of running executions and their copies

A table answers by what was put into it: under each name the last execution, the names in the order
in which they first came up. A copy goes on from what had been put into the original by then, and
nothing that is put into one of the two is seen in the other.
-/

set_option autoImplicit false

namespace JobWatch.Executions

/-- A table holds some entries: each name once, in the order in which the names first came up and at
the place that the index gives, with the last execution under it. -/
structure Holds (x : Executions) (entries : List (String × Execution)) : Prop where
  distinct : (x.toList.map Prod.fst).Nodup
  index_iff : ∀ (name : String) (place : Nat),
    x.index[name]? = some place ↔ ∃ e, x.entries[place]? = some (name, e)
  found : ∀ name, x.get? name = latest? name entries
  names : x.toList.map Prod.fst = (entries.map Prod.fst).eraseDups
  listed : ∀ name e, (name, e) ∈ x.toList ↔ latest? name entries = some e
  size : x.size = (entries.map Prod.fst).eraseDups.length
  isEmpty_iff : x.isEmpty = true ↔ entries = []

section Coherent

variable {x : Executions} (hx : x.Coherent)

include hx

theorem Coherent.index_iff (name : String) (place : Nat) :
    x.index[name]? = some place ↔ ∃ e, x.entries[place]? = some (name, e) := by
  rw [hx name place, Option.map_eq_some_iff]
  simp

theorem Coherent.distinct : (x.toList.map Prod.fst).Nodup := by
  apply List.nodup_iff_getElem?_ne_getElem?.mpr
  intro i j hij hj heq
  obtain ⟨name, hname⟩ : ∃ name, (x.toList.map Prod.fst)[j]? = some name :=
    ⟨_, List.getElem?_eq_getElem hj⟩
  rw [hname] at heq
  have hi := (hx name i).mpr (by simpa [toList] using heq)
  have hplace := (hx name j).mpr (by simpa [toList] using hname)
  have hsame : i = j := Option.some.inj (hi.symm.trans hplace)
  omega

theorem Coherent.get?_eq_some_iff (name : String) (e : Execution) :
    x.get? name = some e ↔ (name, e) ∈ x.toList := by
  rw [get?_eq, toList, Array.mem_toList_iff, Array.mem_iff_getElem?]
  constructor
  · intro h
    obtain ⟨place, hplace, hentry⟩ := Option.bind_eq_some_iff.mp h
    obtain ⟨e', he'⟩ := (hx.index_iff name place).mp hplace
    refine ⟨place, ?_⟩
    rw [he'] at hentry ⊢
    rw [← Option.some.inj hentry]
  · rintro ⟨place, hentry⟩
    have hplace := (hx.index_iff name place).mpr ⟨e, hentry⟩
    simp [hplace, hentry]

theorem Coherent.names_insert (name : String) (e : Execution) :
    (x.insert name e).toList.map Prod.fst =
      if name ∈ x.toList.map Prod.fst then x.toList.map Prod.fst
      else x.toList.map Prod.fst ++ [name] := by
  unfold insert
  split
  next place hplace =>
    obtain ⟨old, hold⟩ := (hx.index_iff name place).mp hplace
    have hmem : name ∈ x.toList.map Prod.fst :=
      List.mem_map_of_mem (Array.mem_toList_iff.mpr (Array.mem_of_getElem? hold))
    rw [if_pos hmem]
    apply List.ext_getElem?
    intro i
    rw [toList, toList, Array.toList_modify, List.getElem?_map, List.getElem?_map,
      List.getElem?_modify]
    cases x.entries.toList[i]? with
    | none => rfl
    | some entry => by_cases hi : place = i <;> simp [hi]
  next hnew =>
    have hnot : name ∉ x.toList.map Prod.fst := by
      intro hmem
      obtain ⟨⟨_, old⟩, hentry, rfl⟩ := List.mem_map.mp hmem
      obtain ⟨place, hplace⟩ := Array.mem_iff_getElem?.mp (Array.mem_toList_iff.mp hentry)
      rw [(hx.index_iff _ place).mpr ⟨old, hplace⟩] at hnew
      cases hnew
    rw [if_neg hnot]
    simp [toList]

end Coherent

theorem eraseDups_concat (names : List String) (name : String) :
    (names ++ [name]).eraseDups =
      if name ∈ names then names.eraseDups else names.eraseDups ++ [name] := by
  rw [List.eraseDups_append]
  by_cases h : name ∈ names <;> simp [h, List.removeAll, List.eraseDups_cons]

theorem names_ofEntries (entries : List (String × Execution)) :
    (ofEntries entries).toList.map Prod.fst = (entries.map Prod.fst).eraseDups := by
  induction entries using List.reverseRecOn with
  | nil => rfl
  | append_singleton entries entry ih =>
    rw [ofEntries_concat, (ofEntries_coherent entries).names_insert, ih, List.map_append,
      List.map_singleton, eraseDups_concat]
    exact if_congr List.mem_eraseDups rfl rfl

theorem ofEntries_holds (entries : List (String × Execution)) :
    (ofEntries entries).Holds entries := by
  have hx := ofEntries_coherent entries
  have hnames := names_ofEntries entries
  have hsize : (ofEntries entries).size = (entries.map Prod.fst).eraseDups.length := by
    rw [← hnames, List.length_map]
    exact Array.size_eq_length_toList
  refine ⟨hx.distinct, hx.index_iff, get?_ofEntries entries, hnames, ?_, hsize, ?_⟩
  · intro name e
    rw [← hx.get?_eq_some_iff, get?_ofEntries]
  · have hempty : (ofEntries entries).isEmpty = true ↔ (ofEntries entries).size = 0 := by
      simp [isEmpty, size]
    rw [hempty, hsize]
    cases entries with
    | nil => simp
    | cons entry entries => simp [List.eraseDups_cons]

/-- What is done with some tables, given by their places: something is put into one, or a copy of one
comes last. -/
inductive Use where
  | insert (table : Nat) (name : String) (e : Execution)
  | copy (table : Nat)

def Use.step {τ : Type} (put : τ → String × Execution → τ) (tables : List τ) : Use → List τ
  | insert table name e => tables.modify table (put · (name, e))
  | copy table => tables ++ tables[table]?.toList

def tables (uses : List Use) : List Executions :=
  uses.foldl (Use.step fun x entry => x.insert entry.1 entry.2) [empty]

/-- What was put into each table, and before into the original if the table is a copy. -/
def histories (uses : List Use) : List (List (String × Execution)) :=
  uses.foldl (Use.step fun entries entry => entries ++ [entry]) [[]]

theorem tables_concat (uses : List Use) (use : Use) :
    tables (uses ++ [use]) = use.step (fun x entry => x.insert entry.1 entry.2) (tables uses) := by
  simp [tables]

theorem histories_concat (uses : List Use) (use : Use) :
    histories (uses ++ [use]) =
      use.step (fun entries entry => entries ++ [entry]) (histories uses) := by
  simp [histories]

theorem Use.step_map {σ τ : Type} {f : σ → τ} {put : σ → String × Execution → σ}
    {put' : τ → String × Execution → τ} (hput : ∀ a entry, f (put a entry) = put' (f a) entry)
    (tables : List σ) (use : Use) : (use.step put tables).map f = use.step put' (tables.map f) := by
  cases use with
  | insert table name e =>
    apply List.ext_getElem?
    intro i
    simp only [step, List.getElem?_map, List.getElem?_modify]
    cases tables[i]? with
    | none => rfl
    | some a => by_cases hi : table = i <;> simp [hi, hput]
  | copy table =>
    simp only [step, List.map_append, List.getElem?_map]
    cases tables[table]? <;> rfl

/-- Each table holds its own history. -/
theorem tables_eq_map (uses : List Use) : tables uses = (histories uses).map ofEntries := by
  induction uses using List.reverseRecOn with
  | nil => rfl
  | append_singleton uses use ih =>
    rw [tables_concat, histories_concat, ih]
    exact (Use.step_map ofEntries_concat _ use).symm

theorem Use.getElem?_step {τ : Type} (put : τ → String × Execution → τ) {tables : List τ}
    {use : Use} {table : Nat} {a : τ} (ha : tables[table]? = some a)
    (huse : ∀ name e, use ≠ .insert table name e) : (use.step put tables)[table]? = some a := by
  cases use with
  | insert other name e =>
    have hne : other ≠ table := by
      rintro rfl
      exact huse name e rfl
    simp [step, hne, ha]
  | copy other =>
    rw [step, List.getElem?_append_left (List.getElem?_eq_some_iff.mp ha).1, ha]

theorem getElem?_tables_append {uses more : List Use} {table : Nat} {x : Executions}
    (hx : (tables uses)[table]? = some x) (hmore : ∀ name e, Use.insert table name e ∉ more) :
    (tables (uses ++ more))[table]? = some x := by
  induction more using List.reverseRecOn with
  | nil => rwa [List.append_nil]
  | append_singleton more use ih =>
    have hbefore := ih fun name e hmem => hmore name e (List.mem_append_left _ hmem)
    rw [← List.append_assoc, tables_concat]
    apply Use.getElem?_step _ hbefore
    rintro name e rfl
    exact hmore name e (by simp)

/-- After any uses of a table and its copies, each holds what was put into it, and into its original
before it was made. A new copy is what the original is, and a table stays as it is whatever is put
into others. -/
theorem tables_hold_own (uses : List Use) :
    List.Forall₂ Holds (tables uses) (histories uses) ∧
    (∀ table, tables (uses ++ [.copy table]) = tables uses ++ (tables uses)[table]?.toList) ∧
    ∀ table x more, (tables uses)[table]? = some x →
      (∀ name e, Use.insert table name e ∉ more) → (tables (uses ++ more))[table]? = some x := by
  refine ⟨?_, fun table => tables_concat uses (.copy table), ?_⟩
  · rw [tables_eq_map, List.forall₂_map_left_iff]
    exact List.forall₂_same.mpr fun entries _ => ofEntries_holds entries
  · intro table x more hx hmore
    exact getElem?_tables_append hx hmore

end JobWatch.Executions
