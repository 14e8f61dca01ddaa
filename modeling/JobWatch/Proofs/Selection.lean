import Mathlib.Data.List.Forall2

/-!
# What is found in a list

The last element of which something can be made, the extreme of all elements, and an element behind
others of one kind, as the first that is refused. Each is described by where it stands in the list.
-/

set_option autoImplicit false

namespace JobWatch

variable {α β ε : Type}

def LastGiven (f : α → Option β) (l : List α) : Option β → Prop
  | none => ∀ a ∈ l, f a = none
  | some b => ∃ before a after, l = before ++ a :: after ∧ f a = some b ∧ ∀ c ∈ after, f c = none

theorem lastGiven_iff (f : α → Option β) (l : List α) (o : Option β) :
    LastGiven f l o ↔ o = (l.filterMap f).getLast? := by
  cases o with
  | none => simp [LastGiven, eq_comm]
  | some b =>
    rw [eq_comm, List.getLast?_eq_some_iff]
    constructor
    · rintro ⟨before, a, after, rfl, ha, hafter⟩
      refine ⟨before.filterMap f, ?_⟩
      simp [ha, List.filterMap_eq_nil_iff.mpr hafter]
    · rintro ⟨bs, hbs⟩
      obtain ⟨front, back, rfl, -, hback⟩ := List.filterMap_eq_append_iff.mp hbs
      obtain ⟨skipped, a, after, rfl, -, ha, hafter⟩ := List.filterMap_eq_cons_iff.mp hback
      exact ⟨front ++ skipped, a, after, by simp, ha, List.filterMap_eq_nil_iff.mp hafter⟩

def Extreme (R : α → α → Prop) (l : List α) : Option α → Prop
  | none => l = []
  | some a => a ∈ l ∧ ∀ b ∈ l, R b a

theorem Extreme.unique {R : α → α → Prop} (anti : ∀ a b, R a b → R b a → a = b) {l : List α}
    {o o' : Option α} (h : Extreme R l o) (h' : Extreme R l o') : o = o' := by
  cases o with
  | none =>
    cases o' with
    | none => rfl
    | some b => exact absurd (h ▸ h'.1) List.not_mem_nil
  | some a =>
    cases o' with
    | none => exact absurd (h' ▸ h.1) List.not_mem_nil
    | some b => rw [anti a b (h'.2 a h.1) (h.2 b h'.1)]

theorem extreme_nil_iff (R : α → α → Prop) (o : Option α) : Extreme R [] o ↔ o = none := by
  cases o <;> simp [Extreme]

theorem Extreme.of_singleton {R : β → β → Prop} {f : α → Option β} {a : α} {b : β}
    (h : Extreme R ([a].filterMap f) (some b)) : f a = some b := by
  obtain ⟨c, hc, hgiven⟩ := List.mem_filterMap.mp h.1
  rwa [List.mem_singleton.mp hc] at hgiven

theorem extreme_foldl {R : α → α → Prop} {pick : α → α → α} (refl : ∀ a, R a a)
    (trans : ∀ {a b c}, R a b → R b c → R a c) (one : ∀ a b, pick a b = a ∨ pick a b = b)
    (reaches : ∀ a b, R a (pick a b) ∧ R b (pick a b)) (a : α) (l : List α) :
    Extreme R (a :: l) (some (l.foldl pick a)) := by
  induction l generalizing a with
  | nil => exact ⟨by simp, by simpa using refl a⟩
  | cons b l ih =>
    rw [List.foldl_cons]
    obtain ⟨hmem, hall⟩ := ih (pick a b)
    have hpick := hall (pick a b) (by simp)
    constructor
    · rcases List.mem_cons.mp hmem with h | h
      · rw [h]
        rcases one a b with hab | hab <;> simp [hab]
      · simp [h]
    · intro c hc
      rcases List.mem_cons.mp hc with rfl | hc
      · exact trans (reaches c b).1 hpick
      rcases List.mem_cons.mp hc with rfl | hc
      · exact trans (reaches a c).2 hpick
      · exact hall c (by simp [hc])

theorem mapM_eq_ok_iff (f : α → Except ε β) (l : List α) (r : List β) :
    l.mapM f = .ok r ↔ List.Forall₂ (fun a b => f a = .ok b) l r := by
  induction l generalizing r with
  | nil => cases r <;> simp [pure, Except.pure]
  | cons a l ih =>
    rw [List.mapM_cons, List.forall₂_cons_left_iff]
    cases ha : f a with
    | error e => simp [bind, Except.bind]
    | ok b =>
      cases hl : l.mapM f with
      | error e => simp [bind, Except.bind, ← ih, hl]
      | ok bs => simp [bind, Except.bind, pure, Except.pure, ← ih, hl, eq_comm]

def LeadsTo (P Q : α → Prop) (l : List α) : Prop :=
  ∃ before a after, l = before ++ a :: after ∧ (∀ b ∈ before, P b) ∧ Q a

theorem not_leadsTo_nil (P Q : α → Prop) : ¬ LeadsTo P Q [] := by
  simp [LeadsTo]

theorem leadsTo_cons_iff (P Q : α → Prop) (a : α) (l : List α) :
    LeadsTo P Q (a :: l) ↔ Q a ∨ P a ∧ LeadsTo P Q l := by
  constructor
  · rintro ⟨_ | ⟨b, before⟩, c, after, heq, hbefore, hc⟩
    · obtain ⟨rfl, rfl⟩ := List.cons.inj heq
      exact .inl hc
    · obtain ⟨rfl, rfl⟩ := List.cons.inj heq
      exact .inr ⟨hbefore a (by simp), before, c, after, rfl, fun d hd => hbefore d (by simp [hd]),
        hc⟩
  · rintro (ha | ⟨ha, before, c, after, rfl, hbefore, hc⟩)
    · exact ⟨[], a, l, rfl, by simp, ha⟩
    · exact ⟨a :: before, c, after, rfl, by simpa [ha] using hbefore, hc⟩

theorem leadsTo_not_iff (Q : α → Prop) (l : List α) :
    LeadsTo (fun a => ¬ Q a) Q l ↔ ∃ a ∈ l, Q a := by
  induction l with
  | nil => simp [LeadsTo]
  | cons a l ih =>
    rw [leadsTo_cons_iff, ih]
    by_cases ha : Q a <;> simp [ha]

theorem mapM_eq_error_iff (f : α → Except ε β) (l : List α) (e : ε) :
    l.mapM f = .error e ↔ LeadsTo (fun a => ∀ e, f a ≠ .error e) (fun a => f a = .error e) l := by
  induction l with
  | nil => simp [not_leadsTo_nil, pure, Except.pure]
  | cons a l ih =>
    rw [List.mapM_cons, leadsTo_cons_iff]
    cases ha : f a with
    | error e' => simp [bind, Except.bind]
    | ok b =>
      rw [← ih]
      cases l.mapM f <;> simp [bind, Except.bind, pure, Except.pure]

end JobWatch
