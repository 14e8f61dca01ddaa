import JobWatch.Text.Cut

/-!
# Parts that can be cut out of a text

A cut can be made where both positions lie between two characters of the text. In a text that has a
byte for each character every position does.
-/

set_option autoImplicit false

namespace JobWatch.Text

def IsBoundary (s : List Char) (n : Nat) : Prop := ∃ before, before <+: s ∧ byteLength before = n

theorem byteLength_append (s t : List Char) :
    byteLength (s ++ t) = byteLength s + byteLength t := by
  induction s with
  | nil => simp [byteLength]
  | cons c s ih => simp only [List.cons_append, byteLength, ih, Nat.add_assoc]

theorem isBoundary_zero (s : List Char) : IsBoundary s 0 := ⟨[], s.nil_prefix, rfl⟩

theorem isBoundary_byteLength (s : List Char) : IsBoundary s (byteLength s) :=
  ⟨s, List.prefix_rfl, rfl⟩

theorem IsBoundary.le {s : List Char} {n : Nat} (h : IsBoundary s n) : n ≤ byteLength s := by
  obtain ⟨before, ⟨after, rfl⟩, rfl⟩ := h
  rw [byteLength_append]
  exact Nat.le_add_right _ _

theorem splitAt?_append (before after : List Char) :
    splitAt? (byteLength before) (before ++ after) = some (before, after) := by
  induction before with
  | nil => simp [byteLength, splitAt?]
  | cons c before ih =>
    obtain ⟨n, hn⟩ : ∃ n, byteLength (c :: before) = n + 1 := by
      have hsize := c.utf8Size_pos
      exact ⟨byteLength (c :: before) - 1, by simp only [byteLength]; omega⟩
    have hrest : n + 1 - c.utf8Size = byteLength before := by
      simp only [byteLength] at hn
      omega
    have hle : c.utf8Size ≤ n + 1 := by
      simp only [byteLength] at hn
      omega
    rw [hn, List.cons_append, splitAt?, if_pos hle, hrest, ih]
    rfl

theorem cut?_append (before part after : List Char) :
    cut? (byteLength before) (byteLength before + byteLength part) (before ++ (part ++ after)) =
      some part := by
  simp [cut?, splitAt?_append]

theorem exists_cut? {s : List Char} {first last : Nat} (hfirst : IsBoundary s first)
    (hlast : IsBoundary s last) (hle : first ≤ last) : ∃ part, cut? first last s = some part := by
  obtain ⟨before, hbefore, rfl⟩ := hfirst
  obtain ⟨whole, hwhole, rfl⟩ := hlast
  rcases List.prefix_or_prefix_of_prefix hbefore hwhole with ⟨part, rfl⟩ | ⟨rest, rfl⟩
  · obtain ⟨after, rfl⟩ := hwhole
    refine ⟨part, ?_⟩
    rw [byteLength_append, List.append_assoc, cut?_append]
  · -- the positions are the same: nothing stands between them
    obtain ⟨after, rfl⟩ := hbefore
    have hsame : byteLength (whole ++ rest) = byteLength whole := by
      rw [byteLength_append] at hle ⊢
      omega
    have hcut := cut?_append (whole ++ rest) [] after
    refine ⟨[], ?_⟩
    simpa [byteLength, hsame] using hcut

theorem byteLength_of_single {s : List Char} (h : ∀ c ∈ s, c.utf8Size = 1) :
    byteLength s = s.length := by
  induction s with
  | nil => rfl
  | cons c s ih =>
    obtain ⟨hc, hs⟩ := List.forall_mem_cons.mp h
    rw [byteLength, hc, ih hs, List.length_cons, Nat.add_comm]

theorem isBoundary_of_single {s : List Char} (h : ∀ c ∈ s, c.utf8Size = 1) {n : Nat}
    (hn : n ≤ s.length) : IsBoundary s n := by
  refine ⟨s.take n, List.take_prefix n s, ?_⟩
  rw [byteLength_of_single fun c hc => h c (List.mem_of_mem_take hc), List.length_take]
  omega

end JobWatch.Text
