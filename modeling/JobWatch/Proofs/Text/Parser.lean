import JobWatch.Text.Parser

/-!
# What parsers read off a text

A parser of characters of a class takes those in front and leaves the rest, as long as the rest does
not go on with the class. What holds of the values of a parser, whatever it reads them from, follows
from what holds of the values of its parts.
-/

set_option autoImplicit false

namespace JobWatch.Text.Parser

variable {α β : Type}

def StopsAt (ok : Char → Bool) (s : List Char) : Prop := ∀ c, s.head? = some c → ok c = false

theorem stopsAt_cons {ok : Char → Bool} {c : Char} (h : ok c = false) (s : List Char) :
    StopsAt ok (c :: s) := by
  intro d hd
  rw [← Option.some.inj hd]
  exact h

theorem stopsAt_nil (ok : Char → Bool) : StopsAt ok [] := by
  rintro c ⟨⟩

theorem bind_of_eq {p : Parser α} {f : α → Parser β} {s rest : List Char} {a : α}
    (h : p s = some (a, rest)) : (p >>= f) s = f a rest := by
  simp only [bind, h]

theorem maybe_of_eq {p : Parser α} {s rest : List Char} {a : α} (h : p s = some (a, rest)) :
    maybe p s = some (some a, rest) := by
  unfold maybe
  rw [h]

theorem maybe_of_eq_none {p : Parser α} {s : List Char} (h : p s = none) :
    maybe p s = some (none, s) := by
  unfold maybe
  rw [h]

theorem charOf_cons {ok : Char → Bool} {c : Char} (h : ok c = true) (s : List Char) :
    charOf ok (c :: s) = some (c, s) := by
  rw [charOf, if_pos h]

theorem charOf_of_stopsAt {ok : Char → Bool} {s : List Char} (h : StopsAt ok s) :
    charOf ok s = none := by
  cases s with
  | nil => rfl
  | cons c s => rw [charOf, h c rfl, if_neg (by simp)]

theorem char_cons (c : Char) (s : List Char) : char c (c :: s) = some ((), s) := by
  rw [char, if_pos rfl]

theorem skip_of_stopsAt {ok : Char → Bool} {s : List Char} (h : StopsAt ok s) :
    skip ok s = some ((), s) := by
  cases s with
  | nil => rfl
  | cons c s =>
    unfold skip
    rw [List.dropWhile_cons, h c rfl, if_neg (by simp)]

theorem run_append {ok : Char → Bool} {cs s : List Char} (hcs : ∀ c ∈ cs, ok c = true)
    (hs : StopsAt ok s) : run ok (cs ++ s) = some (cs, s) := by
  have hrest : s.takeWhile ok = [] ∧ s.dropWhile ok = s := by
    cases s with
    | nil => exact ⟨rfl, rfl⟩
    | cons c s => simp [hs c rfl]
  rw [run, List.takeWhile_append_of_pos hcs, List.dropWhile_append_of_pos hcs, hrest.1, hrest.2,
    List.append_nil]

theorem run1_append {ok : Char → Bool} {cs s : List Char} (hcs : ∀ c ∈ cs, ok c = true)
    (hne : cs ≠ []) (hs : StopsAt ok s) : run1 ok (cs ++ s) = some (cs, s) := by
  rw [run1, bind_of_eq (run_append hcs hs), if_neg (by simpa using hne)]
  rfl

def Yields (p : Parser α) (Q : α → Prop) : Prop := ∀ s a rest, p s = some (a, rest) → Q a

section Yields

variable {p q : Parser α} {P Q : α → Prop}

theorem yields_trivial (p : Parser α) : Yields p fun _ => True := fun _ _ _ _ => trivial

theorem yields_pure {a : α} (h : Q a) : Yields (pure a) Q := by
  rintro s b rest hread
  cases hread
  exact h

theorem yields_failure : Yields (failure : Parser α) Q := by
  rintro s a rest hread
  cases hread

theorem yields_bind {R : β → Prop} {f : α → Parser β} (hp : Yields p P)
    (hf : ∀ a, P a → Yields (f a) R) : Yields (p >>= f) R := by
  intro s b rest hread
  cases hfirst : p s with
  | none => simp [bind, hfirst] at hread
  | some result =>
    obtain ⟨a, remaining⟩ := result
    rw [bind_of_eq hfirst] at hread
    exact hf a (hp s a remaining hfirst) remaining b rest hread

theorem yields_after {R : β → Prop} {f : α → Parser β} (hf : ∀ a, Yields (f a) R) :
    Yields (p >>= f) R := yields_bind (yields_trivial p) fun a _ => hf a

theorem yields_orElse (hp : Yields p Q) (hq : Yields q Q) : Yields (p <|> q) Q := by
  intro s a rest hread
  cases hfirst : p s with
  | none => exact hq s a rest (by simpa [HOrElse.hOrElse, OrElse.orElse, Alternative.orElse,
      hfirst] using hread)
  | some result =>
    refine hp s a rest ?_
    simpa [HOrElse.hOrElse, OrElse.orElse, Alternative.orElse, hfirst] using hread

theorem yields_ite {c : Prop} [Decidable c] (hp : Yields p Q) (hq : Yields q Q) :
    Yields (if c then p else q) Q := by
  split
  · exact hp
  · exact hq

theorem yields_maybe (hp : Yields p Q) : Yields (maybe p) fun found => ∀ a ∈ found, Q a := by
  intro s found rest hread a ha
  unfold maybe at hread
  cases hfirst : p s with
  | none =>
    rw [hfirst] at hread
    cases hread
    cases ha
  | some result =>
    rw [hfirst] at hread
    cases hread
    cases ha
    exact hp _ _ _ hfirst

theorem forall_mem_manyFrom (hp : Yields p Q) (s : List Char) : ∀ a ∈ (manyFrom p s).1, Q a := by
  induction s using manyFrom.induct p with
  | case1 s hstop =>
    rw [manyFrom, hstop]
    simp
  | case2 s a rest hread hless more remaining hmore ih =>
    rw [manyFrom, hread]
    simp only [hless, if_true, List.forall_mem_cons]
    exact ⟨hp s a rest hread, ih⟩
  | case3 s a rest hread hless =>
    rw [manyFrom, hread]
    simp [hless]

theorem yields_many (hp : Yields p Q) : Yields (many p) fun found => ∀ a ∈ found, Q a := by
  intro s found rest hread
  have hfound : (manyFrom p s).1 = found := congrArg Prod.fst (Option.some.inj hread)
  exact hfound ▸ forall_mem_manyFrom hp s

theorem yields_sepBy1 {separator : Parser β} (hp : Yields p Q) :
    Yields (sepBy1 p separator) fun found => ∀ a ∈ found, Q a :=
  yields_bind hp fun _ ha => yields_bind (yields_many (yields_after fun _ => hp)) fun _ hmore =>
    yields_pure (List.forall_mem_cons.mpr ⟨ha, hmore⟩)

theorem yields_ofOption {found : Option α} (h : ∀ a ∈ found, Q a) : Yields (ofOption found) Q := by
  cases found with
  | none => exact yields_failure
  | some a => exact yields_pure (h a rfl)

theorem of_whole? {a : α} {s : List Char} (hp : Yields p Q) (h : whole? p s = some a) : Q a := by
  unfold whole? at h
  split at h
  next b hread =>
    cases h
    exact hp s a [] hread
  next => cases h

end Yields

end JobWatch.Text.Parser
