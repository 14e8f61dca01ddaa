import JobWatch.Proofs.Text.Cut
import JobWatch.Telemetry.Filter

/-!
# Filters that can be read

The reading of a filter breaks down only at a cut inside a character. A text without blanks at the
beginnings of its parts is cut between characters, and so is one that has a byte for each character:
it is read to the end, whether it is a filter or not.
-/

set_option autoImplicit false

namespace JobWatch

def Outcome.Unbroken {ε α : Type} (P : α → Prop) : Outcome ε α → Prop
  | done a => P a
  | failed _ => True
  | crashed => False

namespace Outcome

variable {ε α β : Type} {P : α → Prop}

theorem Unbroken.bind {Q : β → Prop} {x : Outcome ε α} {f : α → Outcome ε β} (hx : x.Unbroken P)
    (hf : ∀ a, P a → (f a).Unbroken Q) : (x >>= f).Unbroken Q := by
  cases x with
  | done a => exact hf a hx
  | failed fault => exact hx
  | crashed => exact hx

theorem Unbroken.ne_crashed {x : Outcome ε α} (hx : x.Unbroken P) : x ≠ .crashed := by
  rintro rfl
  exact hx

end Outcome

namespace Filter

open Text (IsBoundary byteLength byteLength_of_single exists_cut? isBoundary_byteLength
  isBoundary_of_single isBoundary_zero)

/-- A part of a text that begins with no blank, or that has a byte for each character. -/
def Legible (part : List Char) : Prop :=
  (∀ c ∈ part.head?, Text.isBlank c = false) ∨ ∀ c ∈ part, c.utf8Size = 1

def Mode.Sound (text : List Char) (position : Nat) : Mode → Prop
  | .span first | .field first | .level first => IsBoundary text first ∧ first ≤ position
  | _ => True

theorem part_unbroken {text : List Char} {first last : Nat} (hfirst : IsBoundary text first)
    (hlast : IsBoundary text last) (hle : first ≤ last) :
    (part text first last).Unbroken fun _ => True := by
  obtain ⟨p, hp⟩ := exists_cut? hfirst hlast hle
  rw [part, hp]
  trivial

theorem FieldFilter.parse_unbroken (text : List Char) :
    (FieldFilter.parse text).Unbroken fun _ => True := by
  unfold FieldFilter.parse
  dsimp only
  split
  · trivial
  split
  · trivial
  split <;> trivial

section Step

variable {text : List Char} {position : Nat} {mode : Mode} (hsound : mode.Sound text position)
  (hposition : IsBoundary text position)

include hsound hposition

/-- One more character breaks nothing down, and leaves what was begun between two characters. -/
theorem Mode.next_unbroken {c : Char} (hnext : IsBoundary text (position + c.utf8Size))
    (d : Directive) :
    (mode.next text position d c).Unbroken fun (mode', _) =>
      mode'.Sound text (position + c.utf8Size) := by
  -- what begins behind a character of one byte begins where the next character stands
  have hbegun (hc : c.utf8Size = 1) :
      IsBoundary text (position + 1) ∧ position + 1 ≤ position + c.utf8Size := by
    rw [← hc]
    exact ⟨hnext, Nat.le_refl _⟩
  have hwhole := part_unbroken (isBoundary_zero text) hposition (Nat.zero_le _)
  unfold Mode.next
  split
  case h_1 | h_10 => exact hbegun rfl
  case h_2 => split <;> trivial
  case h_3 | h_4 => exact hwhole.bind fun _ _ => hbegun rfl
  case h_5 => exact (part_unbroken hsound.1 hposition hsound.2).bind fun _ _ => trivial
  case h_6 => exact (part_unbroken hsound.1 hposition hsound.2).bind fun _ _ => hbegun rfl
  case h_7 =>
    refine (part_unbroken hsound.1 hposition hsound.2).bind fun written _ => ?_
    split
    · trivial
    · exact (FieldFilter.parse_unbroken written).bind fun _ _ => trivial
  case h_8 | h_9 | h_11 => trivial
  case h_12 =>
    -- the character is one of the part that was begun
    show mode.Sound text (position + c.utf8Size)
    cases mode with
    | span first | field first | level first => exact ⟨hsound.1, Nat.le_add_right_of_le hsound.2⟩
    | start | word | fieldEnd | spanEnd => trivial

theorem Mode.finish_unbroken (d : Directive) :
    (mode.finish text d).Unbroken fun _ => True := by
  unfold Mode.finish
  split
  · split <;> trivial
  · refine (part_unbroken hsound.1 (isBoundary_byteLength text) ?_).bind fun word _ => ?_
    · exact Nat.le_trans hsound.2 hposition.le
    · split
      · trivial
      · split <;> trivial
  · trivial
  · trivial

end Step

theorem scan_unbroken {text : List Char} (rest : List Char) (position : Nat) (d : Directive)
    (mode : Mode) (hsound : mode.Sound text position)
    (hpositions : ∀ before, before <+: rest → IsBoundary text (position + byteLength before)) :
    (scan text position d mode rest).Unbroken fun _ => True := by
  have hposition : IsBoundary text position := hpositions [] rest.nil_prefix
  induction rest generalizing position d mode with
  | nil => exact mode.finish_unbroken hsound hposition d
  | cons c rest ih =>
    have hrest (before : List Char) (hbefore : before <+: rest) :
        IsBoundary text (position + c.utf8Size + byteLength before) := by
      rw [Nat.add_assoc]
      exact hpositions (c :: before) (List.prefix_cons_inj c |>.mpr hbefore)
    have hnext : IsBoundary text (position + c.utf8Size) := hrest [] rest.nil_prefix
    rw [scan]
    exact (mode.next_unbroken hsound hposition hnext d).bind fun (mode', d') hsound' =>
      ih _ d' mode' hsound' hrest hnext

theorem trim_sublist (text : List Char) : (trim text).Sublist text := by
  have hfront : (text.dropWhile Text.isBlank).Sublist text := List.dropWhile_sublist _
  have hend := (List.dropWhile_sublist Text.isBlank).trans hfront.reverse
  simpa [trim] using hend.reverse

theorem trim_isPrefix {text : List Char} (h : ∀ c ∈ text.head?, Text.isBlank c = false) :
    trim text <+: text := by
  have hfront : text.dropWhile Text.isBlank = text := by
    cases text with
    | nil => rfl
    | cons c rest => rw [List.dropWhile_cons_of_neg]; simp [h c rfl]
  rw [trim, hfront, ← List.reverse_suffix, List.reverse_reverse]
  exact List.dropWhile_suffix _

theorem directive_unbroken {text : List Char} (h : Legible text) :
    (directive text).Unbroken fun _ => True := by
  apply scan_unbroken (trim text) 0 {} .start trivial
  intro before hbefore
  rw [Nat.zero_add]
  cases h with
  | inl hfront => exact ⟨before, hbefore.trans (trim_isPrefix hfront), rfl⟩
  | inr hsingle =>
    have hsub := hbefore.sublist.trans (trim_sublist text)
    rw [byteLength_of_single fun c hc => hsingle c (hsub.subset hc)]
    exact isBoundary_of_single hsingle hsub.length_le

theorem directivesOf_unbroken {texts : List (List Char)} (h : ∀ text ∈ texts, Legible text) :
    (directivesOf texts).Unbroken fun _ => True := by
  induction texts with
  | nil => trivial
  | cons text rest ih =>
    obtain ⟨htext, hrest⟩ := List.forall_mem_cons.mp h
    rw [directivesOf]
    exact (directive_unbroken htext).bind fun _ _ => (ih hrest).bind fun _ _ => trivial

/-- A text with legible parts is a filter or is told that it is none. -/
theorem parse_ne_crashed {text : String} (h : ∀ part ∈ parts text.toList, Legible part) :
    parse text ≠ .crashed := by
  apply Outcome.Unbroken.ne_crashed (P := fun _ => True)
  refine (directivesOf_unbroken ?_).bind fun _ _ => trivial
  intro part hpart
  exact h part (List.mem_filter.mp hpart).1

end Filter

end JobWatch
