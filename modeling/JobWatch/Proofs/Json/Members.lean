import JobWatch.Json.Record
import Mathlib.Data.List.Nodup
import Mathlib.Logic.Relation

/-!
# Records do not depend on order or on unknown members

A form may be written with its members in another order and with members of unknown names among
them, at any depth. A record is read from it as before: each known member is given as it was or
changed in the same way itself.
-/

set_option autoImplicit false

namespace JobWatch.Json

/-- Which members an object is known to have, and what they are known to have. -/
inductive Layout where
  | plain
  | record (known : List (String × Layout))

/-- One change to a form: members in another order, a string under an unknown name, or a change in a
known member. -/
inductive Change : Layout → Json → Json → Prop
  | reordered {known : List (String × Layout)} {members members' : List (String × Json)}
      (h : members.Perm members') : Change (.record known) (.object members) (.object members')
  | added {known : List (String × Layout)} {members : List (String × Json)} {name : String}
      (s : String) (h : name ∉ known.map Prod.fst) :
      Change (.record known) (.object members) (.object ((name, .text s) :: members))
  | inside {known : List (String × Layout)} {name : String} {layout : Layout}
      {before after : List (String × Json)} {j j' : Json} (hknown : (name, layout) ∈ known)
      (h : Change layout j j') :
      Change (.record known) (.object (before ++ (name, j) :: after))
        (.object (before ++ (name, j') :: after))

/-- A value is read from a form, and from the form after any number of changes. -/
def ReadsBack {α : Type} (layout : Layout) (read : Json → Option α) (j : Json) (a : α) : Prop :=
  read j = some a ∧ ∀ j', Relation.ReflTransGen (Change layout) j j' → read j' = some a

def Keeps {α : Type} (layout : Layout) (read : Json → Option α) (a : α) : Prop :=
  ∀ j j', Change layout j j' → read j = some a → read j' = some a

def Touched (layout : Layout) (o o' : Option Json) : Prop :=
  o = o' ∨ ∃ j j', o = some j ∧ o' = some j' ∧ Change layout j j'

inductive AllTouched : List (String × Layout) → List (Option Json) → List (Option Json) → Prop
  | nil : AllTouched [] [] []
  | cons {name : String} {layout : Layout} {known : List (String × Layout)} {o o' : Option Json}
      {values values' : List (Option Json)} (hfirst : Touched layout o o')
      (hrest : AllTouched known values values') :
      AllTouched ((name, layout) :: known) (o :: values) (o' :: values')

variable {α : Type}

theorem Keeps.readsBack {layout : Layout} {read : Json → Option α} {j : Json} {a : α}
    (hkeeps : Keeps layout read a) (hread : read j = some a) : ReadsBack layout read j a := by
  constructor
  · exact hread
  · intro j' h
    induction h with
    | refl => exact hread
    | tail _ hchange ih => exact hkeeps _ _ hchange ih

theorem touched_plain {o o' : Option Json} (h : Touched .plain o o') : o = o' := by
  cases h with
  | inl h => exact h
  | inr h =>
    obtain ⟨j, j', -, -, hchange⟩ := h
    cases hchange

theorem AllTouched.eq_of_plain {known : List (String × Layout)}
    {values values' : List (Option Json)} (h : AllTouched known values values')
    (hplain : ∀ m ∈ known, m.2 = .plain) : values = values' := by
  induction h with
  | nil => rfl
  | cons hfirst _ ih =>
    have hlayout := hplain _ List.mem_cons_self
    simp only at hlayout
    subst hlayout
    rw [touched_plain hfirst, ih fun m hm => hplain m (List.mem_cons_of_mem _ hm)]

theorem required_of_touched {layout : Layout} {read : Json → Option α} {a : α}
    (hkeeps : Keeps layout read a) {o o' : Option Json} (h : Touched layout o o')
    (hread : required read o = some a) : required read o' = some a := by
  cases h with
  | inl h =>
    rw [← h]
    exact hread
  | inr h =>
    obtain ⟨j, j', rfl, rfl, hchange⟩ := h
    exact hkeeps j j' hchange hread

theorem withDefault_of_touched {layout : Layout} {read : Json → Option α} {a value : α}
    (hkeeps : Keeps layout read a) {o o' : Option Json} (h : Touched layout o o')
    (hread : withDefault value read o = some a) : withDefault value read o' = some a := by
  cases h with
  | inl h =>
    rw [← h]
    exact hread
  | inr h =>
    obtain ⟨j, j', rfl, rfl, hchange⟩ := h
    exact hkeeps j j' hchange hread

def named (name : String) (members : List (String × Json)) : List (String × Json) :=
  members.filter (·.1 = name)

theorem lookup_eq_named (name : String) (members : List (String × Json)) :
    members.lookup name = (named name members).head?.map Prod.snd := by
  induction members with
  | nil => rfl
  | cons m members ih =>
    obtain ⟨other, j⟩ := m
    rw [named] at ih
    by_cases h : other = name
    · simp [named, h]
    · have hbeq : (name == other) = false := by simpa using Ne.symm h
      rw [named, List.lookup_cons, hbeq, List.filter_cons_of_neg (by simpa using h)]
      exact ih

/-- A record is given its members if none of them comes twice. -/
theorem fields?_object_eq_some_iff (names : List String) (fewest : Nat)
    (members : List (String × Json)) (values : List (Option Json)) :
    fields? names fewest (.object members) = some values ↔
      (∀ name ∈ names, (named name members).length ≤ 1) ∧
        values = names.map fun name => members.lookup name := by
  by_cases hunique : ∀ name ∈ names, (named name members).length ≤ 1
  · have hall : (names.all fun name => (members.filter (·.1 = name)).length ≤ 1) = true := by
      simpa [named] using hunique
    rw [fields?, if_pos hall, Option.some.injEq, eq_comm]
    exact (and_iff_right hunique).symm
  · have hall : ¬ (names.all fun name => (members.filter (·.1 = name)).length ≤ 1) = true := by
      simpa [named] using hunique
    rw [fields?, if_neg hall]
    simp [hunique]

theorem allTouched_map {known : List (String × Layout)} {members members' : List (String × Json)}
    (h : ∀ m ∈ known, Touched m.2 (members.lookup m.1) (members'.lookup m.1)) :
    AllTouched known ((known.map Prod.fst).map fun name => members.lookup name)
      ((known.map Prod.fst).map fun name => members'.lookup name) := by
  induction known with
  | nil => exact .nil
  | cons m known ih =>
    exact .cons (h m List.mem_cons_self) (ih fun other hother => h other (by simp [hother]))

theorem fields?_object_of_named {known : List (String × Layout)}
    {members members' : List (String × Json)}
    (hcount : ∀ m ∈ known, (named m.1 members').length = (named m.1 members).length)
    (hgiven : ∀ m ∈ known, (named m.1 members).length ≤ 1 →
      Touched m.2 (members.lookup m.1) (members'.lookup m.1))
    {fewest : Nat} {values : List (Option Json)}
    (hread : fields? (known.map Prod.fst) fewest (.object members) = some values) :
    ∃ values', fields? (known.map Prod.fst) fewest (.object members') = some values' ∧
      AllTouched known values values' := by
  obtain ⟨hunique, rfl⟩ := (fields?_object_eq_some_iff _ _ _ _).mp hread
  have hunique' : ∀ name ∈ known.map Prod.fst, (named name members').length ≤ 1 := by
    intro name hname
    have hsame := hunique name hname
    obtain ⟨m, hm, rfl⟩ := List.mem_map.mp hname
    rw [hcount m hm]
    exact hsame
  refine ⟨_, (fields?_object_eq_some_iff _ _ _ _).mpr ⟨hunique', rfl⟩, ?_⟩
  apply allTouched_map
  intro m hm
  exact hgiven m hm (hunique m.1 (List.mem_map_of_mem hm))

theorem named_reordered {members members' : List (String × Json)} (h : members.Perm members')
    (name : String) (hunique : (named name members).length ≤ 1) :
    named name members' = named name members := by
  have hperm : (named name members).Perm (named name members') := h.filter _
  cases hnamed : named name members with
  | nil =>
    rw [hnamed] at hperm
    exact hperm.symm.eq_nil
  | cons m rest =>
    rw [hnamed, List.length_cons] at hunique
    have hrest : rest = [] := List.eq_nil_of_length_eq_zero (by omega)
    rw [hnamed, hrest] at hperm
    rw [hrest]
    exact List.perm_singleton.mp hperm.symm

theorem named_inside_of_ne {name other : String} (h : name ≠ other)
    (before after : List (String × Json)) (j : Json) :
    named other (before ++ (name, j) :: after) = named other (before ++ after) := by
  simp [named, h]

theorem lookup_inside {name : String} {before after : List (String × Json)} {i : Json}
    (hunique : (named name (before ++ (name, i) :: after)).length ≤ 1) (k : Json) :
    (before ++ (name, k) :: after).lookup name = some k := by
  have hlength : (named name (before ++ (name, i) :: after)).length =
      (named name before).length + ((named name after).length + 1) := by
    simp [named]
  have hbefore : named name before = [] := by
    apply List.eq_nil_of_length_eq_zero
    omega
  rw [named] at hbefore
  rw [lookup_eq_named]
  simp [named, hbefore]

/-- What a record is given after one change was given before it, or was changed itself. -/
theorem fields?_of_change {known : List (String × Layout)} (hknown : (known.map Prod.fst).Nodup)
    {j j' : Json} (h : Change (.record known) j j') {fewest : Nat} {values : List (Option Json)}
    (hread : fields? (known.map Prod.fst) fewest j = some values) :
    ∃ values', fields? (known.map Prod.fst) fewest j' = some values' ∧
      AllTouched known values values' := by
  cases h with
  | reordered hperm =>
    apply fields?_object_of_named _ _ hread
    · intro m _
      exact (hperm.filter _).length_eq.symm
    · intro m _ hunique
      left
      rw [lookup_eq_named, lookup_eq_named, named_reordered hperm m.1 hunique]
  | @added _ members name s hname =>
    have hskip : ∀ m ∈ known, named m.1 ((name, .text s) :: members) = named m.1 members := by
      intro m hm
      have hne : name ≠ m.1 := by
        intro heq
        rw [heq] at hname
        exact hname (List.mem_map_of_mem hm)
      exact List.filter_cons_of_neg (by simpa using hne)
    apply fields?_object_of_named _ _ hread
    · intro m hm
      rw [hskip m hm]
    · intro m hm _
      left
      rw [lookup_eq_named, lookup_eq_named, hskip m hm]
  | @inside _ name layout before after i i' hmem hchange =>
    apply fields?_object_of_named _ _ hread
    · intro m _
      by_cases hname : name = m.1
      · simp [named, hname]
      · rw [named_inside_of_ne hname, named_inside_of_ne hname]
    · intro m hm hunique
      by_cases hname : name = m.1
      · right
        have hm' : m = (name, layout) := List.inj_on_of_nodup_map hknown hm hmem hname.symm
        subst hm'
        exact ⟨i, i', lookup_inside hunique i, lookup_inside hunique i', hchange⟩
      · left
        rw [lookup_eq_named, lookup_eq_named, named_inside_of_ne hname, named_inside_of_ne hname]

theorem fields?_of_change_of_plain {known : List (String × Layout)}
    (hknown : (known.map Prod.fst).Nodup) (hplain : ∀ m ∈ known, m.2 = .plain) {j j' : Json}
    (h : Change (.record known) j j') {fewest : Nat} {values : List (Option Json)}
    (hread : fields? (known.map Prod.fst) fewest j = some values) :
    fields? (known.map Prod.fst) fewest j' = some values := by
  obtain ⟨values', hvalues', htouched⟩ := fields?_of_change hknown h hread
  rw [htouched.eq_of_plain hplain]
  exact hvalues'

theorem keeps_of_plain {known : List (String × Layout)} (fewest : Nat) {read : Json → Option α}
    (hknown : (known.map Prod.fst).Nodup) (hplain : ∀ m ∈ known, m.2 = .plain)
    (hnull : read .null = none)
    (hsame : ∀ j j',
      fields? (known.map Prod.fst) fewest j' = fields? (known.map Prod.fst) fewest j →
      read j' = read j) (a : α) :
    Keeps (.record known) read a := by
  intro j j' h hread
  cases hvalues : fields? (known.map Prod.fst) fewest j with
  | none =>
    rw [hsame .null j hvalues, hnull] at hread
    cases hread
  | some values =>
    have hvalues' := fields?_of_change_of_plain hknown hplain h hvalues
    rw [hsame j j' (hvalues'.trans hvalues.symm)]
    exact hread

theorem readableMembers_eq_all (depth : Nat) (members : List (String × Json)) :
    readableMembers depth members = members.all fun m => m.2.readable depth := by
  induction members with
  | nil => rfl
  | cons m members ih => rw [readableMembers, ih, List.all_cons]

theorem readable_text (depth : Nat) (s : String) : (Json.text s).readable depth = true := by
  cases depth <;> rfl

/-- Where no known member has members of its own, an object can be read as deep as before. -/
theorem readable_of_change {known : List (String × Layout)} (hplain : ∀ m ∈ known, m.2 = .plain)
    {j j' : Json} (h : Change (.record known) j j') (depth : Nat) :
    j'.readable depth = j.readable depth := by
  cases depth with
  | zero => cases h <;> rfl
  | succ depth =>
    cases h with
    | reordered hperm =>
      rw [readable, readable, readableMembers_eq_all, readableMembers_eq_all]
      exact hperm.symm.all_eq
    | added s _ =>
      rw [readable, readable, readableMembers, readable_text, Bool.true_and]
    | inside hmem hchange =>
      have hlayout := hplain _ hmem
      simp only at hlayout
      subst hlayout
      cases hchange

end JobWatch.Json
