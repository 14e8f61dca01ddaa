import JobWatch.Proofs.History
import JobWatch.Proofs.Registry
import Mathlib.Data.List.Induction

/-!
# What a run of binding and unbinding leaves bound

Schedulers with fixed names are bound and unbound in any order. What is bound in the end, and in
which order, is told by the run: each name by its latest successful binding.
-/

set_option autoImplicit false

namespace JobWatch.Registry

variable {ρ : Type}

inductive Op (ρ : Type) where
  | bind (r : ρ)
  | unbind (name : String)

def given (nameOf : ρ → String) (r : ρ) : Option String := some (nameOf r)

def step (nameOf : ρ → String) (reg : Registry ρ) : Op ρ → Registry ρ
  | .bind r => (reg.bind (given nameOf) r).1
  | .unbind name => (reg.unbind (given nameOf) name).1

def run (nameOf : ρ → String) (ops : List (Op ρ)) : Registry ρ := ops.foldl (step nameOf) {}

def Binds (nameOf : ρ → String) (name : String) (past : List (Op ρ)) (op : Op ρ) : Prop :=
  ∃ r, op = .bind r ∧ nameOf r = name ∧
    ((run nameOf past).bind (given nameOf) r).2.outcome = .done ()

/-- The latest successful binding of a scheduler's name was of this scheduler, after a number of
operations. -/
def Latest (nameOf : ρ → String) (ops : List (Op ρ)) (place : Nat) (r : ρ) : Prop :=
  Since (fun past op => past.length = place ∧ op = .bind r ∧ Binds nameOf (nameOf r) past op)
    (Binds nameOf (nameOf r)) ops

def Earlier (nameOf : ρ → String) (ops : List (Op ρ)) (r s : ρ) : Prop :=
  ∃ i j, i < j ∧ Latest nameOf ops i r ∧ Latest nameOf ops j s

structure Recorded (nameOf : ρ → String) (ops : List (Op ρ)) (reg : Registry ρ) : Prop where
  unpoisoned : reg.poisoned = false
  distinct : (reg.bound.map nameOf).Nodup
  names : ∀ name, name ∈ reg.bound.map nameOf ↔
    Since (Binds nameOf name) (fun _ op => op = .unbind name) ops
  latest : ∀ r ∈ reg.bound, ∃ place, Latest nameOf ops place r
  order : reg.bound.Pairwise (Earlier nameOf ops)

variable {nameOf : ρ → String}

theorem run_concat (ops : List (Op ρ)) (op : Op ρ) :
    run nameOf (ops ++ [op]) = step nameOf (run nameOf ops) op := by
  simp [run]

section Answers

variable {reg : Registry ρ}

theorem any_given (name : String) :
    (reg.bound.any fun r => given nameOf r = some name) = decide (name ∈ reg.bound.map nameOf) := by
  rw [Bool.eq_iff_iff]
  simp [given]

theorem bind_given (hfree : reg.poisoned = false) (r : ρ) :
    reg.bind (given nameOf) r =
      if nameOf r ∈ reg.bound.map nameOf then
        (reg, .silent (.failed (.alreadyRegistered (nameOf r))))
      else
        ({ reg with bound := reg.bound ++ [r] }, .tell (.schedulerRegistered (nameOf r))) := by
  rw [bind_of_readable (given nameOf) r rfl hfree (by simp [given]), any_given]
  simp only [decide_eq_true_eq]

theorem unbind_given (hfree : reg.poisoned = false) (name : String) :
    reg.unbind (given nameOf) name =
      ({ reg with bound := reg.bound.filter fun r => nameOf r ≠ name },
        .silent (.done (decide (name ∈ reg.bound.map nameOf)))) := by
  have hkept : (reg.bound.filter fun r => given nameOf r ≠ some name) =
      reg.bound.filter fun r => nameOf r ≠ name := by
    simp [given]
  rw [unbind_of_readable (given nameOf) name hfree (by simp [given]), any_given, hkept]

theorem filter_name_of_distinct {front back : List ρ} {r : ρ}
    (h : ((front ++ r :: back).map nameOf).Nodup) :
    ((front ++ r :: back).filter fun s => nameOf s ≠ nameOf r) = front ++ back := by
  rw [List.map_append, List.map_cons, List.nodup_append] at h
  obtain ⟨-, hback, hfront⟩ := h
  have hkeptFront : (front.filter fun s => nameOf s ≠ nameOf r) = front := by
    rw [List.filter_eq_self]
    intro s hs
    exact decide_eq_true (hfront _ (List.mem_map_of_mem hs) _ List.mem_cons_self)
  have hkeptBack : (back.filter fun s => nameOf s ≠ nameOf r) = back := by
    rw [List.filter_eq_self]
    intro s hs
    have hne : nameOf s ≠ nameOf r := by
      intro heq
      exact (List.nodup_cons.mp hback).1 (heq ▸ List.mem_map_of_mem hs)
    exact decide_eq_true hne
  simp only [List.filter_append, hkeptFront, List.filter_cons, ne_eq, not_true_eq_false,
    decide_false, Bool.false_eq_true, if_false]
  rw [hkeptBack]

theorem unbind_of_bound (hfree : reg.poisoned = false) (hdistinct : (reg.bound.map nameOf).Nodup)
    {front back : List ρ} {r : ρ} (hbound : reg.bound = front ++ r :: back) :
    reg.unbind (given nameOf) (nameOf r) =
      ({ reg with bound := front ++ back }, .silent (.done true)) := by
  rw [hbound] at hdistinct
  rw [unbind_given hfree, hbound, filter_name_of_distinct hdistinct]
  simp

theorem unbind_of_not_bound (hfree : reg.poisoned = false) {name : String}
    (hname : name ∉ reg.bound.map nameOf) :
    reg.unbind (given nameOf) name = (reg, .silent (.done false)) := by
  have hkept : (reg.bound.filter fun r => nameOf r ≠ name) = reg.bound := by
    rw [List.filter_eq_self]
    intro r hr
    exact decide_eq_true fun heq => hname (heq ▸ List.mem_map_of_mem hr)
  rw [unbind_given hfree, hkept, decide_eq_false hname]

end Answers

theorem binds_bind_iff {past : List (Op ρ)} (hfree : (run nameOf past).poisoned = false)
    (name : String) (r : ρ) :
    Binds nameOf name past (.bind r) ↔
      nameOf r = name ∧ name ∉ (run nameOf past).bound.map nameOf := by
  have hanswer : ((run nameOf past).bind (given nameOf) r).2.outcome = .done () ↔
      nameOf r ∉ (run nameOf past).bound.map nameOf := by
    rw [bind_given hfree]
    by_cases hbound : nameOf r ∈ (run nameOf past).bound.map nameOf
    · rw [if_pos hbound]
      simp [hbound]
    · rw [if_neg hbound]
      simp [hbound]
  constructor
  · rintro ⟨s, hs, rfl, hdone⟩
    obtain rfl := Op.bind.inj hs
    exact ⟨rfl, hanswer.mp hdone⟩
  · rintro ⟨rfl, hname⟩
    exact ⟨r, rfl, rfl, hanswer.mpr hname⟩

theorem not_binds_unbind (name other : String) (past : List (Op ρ)) :
    ¬ Binds nameOf name past (.unbind other) := by
  rintro ⟨r, hr, -, -⟩
  cases hr

section Step

variable {ops : List (Op ρ)}

/-- What does not bind a scheduler's name leaves its latest binding. -/
theorem Latest.concat {place : Nat} {r : ρ} {op : Op ρ} (h : Latest nameOf ops place r)
    (hop : ¬ Binds nameOf (nameOf r) ops op) : Latest nameOf (ops ++ [op]) place r := by
  apply (since_concat_iff _ _ ops op).mpr
  exact .inr ⟨h, hop⟩

theorem latest_concat_bind {r : ρ} (h : Binds nameOf (nameOf r) ops (.bind r)) :
    Latest nameOf (ops ++ [.bind r]) ops.length r := by
  apply (since_concat_iff _ _ ops (.bind r)).mpr
  exact .inl ⟨rfl, rfl, h⟩

theorem Latest.lt {place : Nat} {r : ρ} (h : Latest nameOf ops place r) : place < ops.length := by
  obtain ⟨before, op, after, rfl, ⟨hplace, -, -⟩, -⟩ := h
  simp only [List.length_append, List.length_cons]
  omega

theorem Earlier.concat {r s : ρ} {op : Op ρ} (h : Earlier nameOf ops r s)
    (hr : ¬ Binds nameOf (nameOf r) ops op) (hs : ¬ Binds nameOf (nameOf s) ops op) :
    Earlier nameOf (ops ++ [op]) r s := by
  obtain ⟨i, j, hij, hi, hj⟩ := h
  exact ⟨i, j, hij, hi.concat hr, hj.concat hs⟩

variable (h : Recorded nameOf ops (run nameOf ops))

include h

/-- No bound scheduler has its name bound again. -/
theorem Recorded.not_binds {r : ρ} (hr : r ∈ (run nameOf ops).bound) (op : Op ρ) :
    ¬ Binds nameOf (nameOf r) ops op := by
  cases op with
  | bind s =>
    rw [binds_bind_iff h.unpoisoned]
    intro hs
    exact hs.2 (List.mem_map_of_mem hr)
  | unbind name => exact not_binds_unbind _ _ _

theorem Recorded.latest_concat (op : Op ρ) :
    ∀ r ∈ (run nameOf ops).bound, ∃ place, Latest nameOf (ops ++ [op]) place r := by
  intro r hr
  obtain ⟨place, hplace⟩ := h.latest r hr
  exact ⟨place, hplace.concat (h.not_binds hr op)⟩

theorem Recorded.order_concat (op : Op ρ) :
    (run nameOf ops).bound.Pairwise (Earlier nameOf (ops ++ [op])) := by
  apply h.order.imp_of_mem
  intro r s hr hs hrs
  exact hrs.concat (h.not_binds hr op) (h.not_binds hs op)

theorem Recorded.refused {r : ρ} (hr : nameOf r ∈ (run nameOf ops).bound.map nameOf) :
    Recorded nameOf (ops ++ [.bind r]) (run nameOf ops) := by
  have hbinds : ∀ name, ¬ Binds nameOf name ops (.bind r) := by
    intro name
    rw [binds_bind_iff h.unpoisoned]
    rintro ⟨rfl, hname⟩
    exact hname hr
  constructor
  · exact h.unpoisoned
  · exact h.distinct
  · intro name
    rw [since_concat_iff, h.names]
    simp [hbinds]
  · exact h.latest_concat _
  · exact h.order_concat _

theorem Recorded.bound {r : ρ} (hr : nameOf r ∉ (run nameOf ops).bound.map nameOf) :
    Recorded nameOf (ops ++ [.bind r])
      { run nameOf ops with bound := (run nameOf ops).bound ++ [r] } := by
  have hlast : Latest nameOf (ops ++ [.bind r]) ops.length r :=
    latest_concat_bind ((binds_bind_iff h.unpoisoned _ r).mpr ⟨rfl, hr⟩)
  constructor
  · exact h.unpoisoned
  · show (((run nameOf ops).bound ++ [r]).map nameOf).Nodup
    rw [List.map_append, List.map_singleton, List.nodup_append]
    refine ⟨h.distinct, by simp, ?_⟩
    intro name hname other hother heq
    rw [List.mem_singleton.mp hother] at heq
    exact hr (heq ▸ hname)
  · intro name
    rw [since_concat_iff, ← h.names, binds_bind_iff h.unpoisoned]
    by_cases hname : nameOf r = name
    · subst hname
      simp [hr]
    · simp [hname, Ne.symm hname]
  · intro s hs
    rcases List.mem_append.mp hs with hs | hs
    · exact h.latest_concat _ s hs
    · obtain rfl := List.mem_singleton.mp hs
      exact ⟨ops.length, hlast⟩
  · show ((run nameOf ops).bound ++ [r]).Pairwise (Earlier nameOf (ops ++ [.bind r]))
    rw [List.pairwise_append]
    refine ⟨h.order_concat _, List.pairwise_singleton _ _, ?_⟩
    intro s hs t ht
    obtain rfl := List.mem_singleton.mp ht
    obtain ⟨place, hplace⟩ := h.latest s hs
    exact ⟨place, ops.length, hplace.lt, hplace.concat (h.not_binds hs _), hlast⟩

theorem Recorded.unbound (name : String) :
    Recorded nameOf (ops ++ [.unbind name])
      { run nameOf ops with bound := (run nameOf ops).bound.filter fun r => nameOf r ≠ name } := by
  constructor
  · exact h.unpoisoned
  · exact h.distinct.sublist (List.filter_sublist.map nameOf)
  · intro other
    rw [since_concat_iff, ← h.names]
    simp only [not_binds_unbind, false_or, List.mem_map, List.mem_filter, decide_eq_true_eq,
      Op.unbind.injEq]
    constructor
    · rintro ⟨r, ⟨hr, hne⟩, rfl⟩
      exact ⟨⟨r, hr, rfl⟩, Ne.symm hne⟩
    · rintro ⟨⟨r, hr, rfl⟩, hne⟩
      exact ⟨r, ⟨hr, Ne.symm hne⟩, rfl⟩
  · intro r hr
    exact h.latest_concat _ r (List.mem_of_mem_filter hr)
  · exact (h.order_concat _).filter _

theorem Recorded.step (op : Op ρ) :
    Recorded nameOf (ops ++ [op]) (step nameOf (run nameOf ops) op) := by
  cases op with
  | bind r =>
    show Recorded nameOf (ops ++ [.bind r]) ((run nameOf ops).bind (given nameOf) r).1
    rw [bind_given h.unpoisoned]
    by_cases hr : nameOf r ∈ (run nameOf ops).bound.map nameOf
    · rw [if_pos hr]
      exact h.refused hr
    · rw [if_neg hr]
      exact h.bound hr
  | unbind name =>
    show Recorded nameOf (ops ++ [.unbind name]) ((run nameOf ops).unbind (given nameOf) name).1
    rw [unbind_given h.unpoisoned]
    exact h.unbound name

end Step

theorem recorded_run (nameOf : ρ → String) (ops : List (Op ρ)) :
    Recorded nameOf ops (run nameOf ops) := by
  induction ops using List.reverseRecOn with
  | nil =>
    constructor
    · rfl
    · exact List.nodup_nil
    · intro name
      simp [run, not_since_nil]
    · intro r hr
      cases hr
    · exact .nil
  | append_singleton ops op ih =>
    rw [run_concat]
    exact ih.step op

/-- After any run the names bound are those of the run, each once and in the order of their latest
bindings. A name that is bound is refused and taken out; one that is free is bound last. -/
theorem bound_by_history (nameOf : ρ → String) (ops : List (Op ρ)) :
    let reg := run nameOf ops
    Recorded nameOf ops reg ∧
    reg.lookup = .ok reg.bound ∧
    (∀ r, nameOf r ∈ reg.bound.map nameOf →
      reg.bind (given nameOf) r =
        (reg, .silent (.failed (.alreadyRegistered (nameOf r))))) ∧
    (∀ r, nameOf r ∉ reg.bound.map nameOf →
      reg.bind (given nameOf) r =
        ({ reg with bound := reg.bound ++ [r] }, .tell (.schedulerRegistered (nameOf r)))) ∧
    (∀ name, name ∉ reg.bound.map nameOf →
      reg.unbind (given nameOf) name = (reg, .silent (.done false))) ∧
    ∀ front r back, reg.bound = front ++ r :: back →
      reg.unbind (given nameOf) (nameOf r) =
        ({ reg with bound := front ++ back }, .silent (.done true)) ∧
      ∀ s, nameOf s = nameOf r →
        (reg.unbind (given nameOf) (nameOf r)).1.bind (given nameOf) s =
          ({ reg with bound := front ++ back ++ [s] },
            .tell (.schedulerRegistered (nameOf s))) := by
  intro reg
  have h : Recorded nameOf ops reg := recorded_run nameOf ops
  refine ⟨h, ?_, ?_, ?_, ?_, ?_⟩
  · simp [lookup, h.unpoisoned]
  · intro r hr
    rw [bind_given h.unpoisoned, if_pos hr]
  · intro r hr
    rw [bind_given h.unpoisoned, if_neg hr]
  · intro name hname
    exact unbind_of_not_bound h.unpoisoned hname
  · intro front r back hbound
    have hunbind := unbind_of_bound h.unpoisoned h.distinct hbound
    refine ⟨hunbind, ?_⟩
    intro s hs
    have hfree : nameOf s ∉ (front ++ back).map nameOf := by
      have hdistinct := h.distinct
      rw [hbound] at hdistinct
      rw [hs, ← filter_name_of_distinct hdistinct]
      simp
    have hunpoisoned : ({ reg with bound := front ++ back } : Registry ρ).poisoned = false :=
      h.unpoisoned
    rw [hunbind, bind_given hunpoisoned, if_neg hfree]

theorem freed_name_bound_last :
    (((run Prod.snd [.bind (0, "main"), .bind (1, "night")]).unbind (given Prod.snd) "main").1.bind
      (given Prod.snd) (2, "main")) =
      (⟨[(1, "night"), (2, "main")], false⟩, .tell (.schedulerRegistered "main")) := by
  obtain ⟨-, -, -, -, -, hfreed⟩ :=
    bound_by_history Prod.snd [Op.bind (0, "main"), Op.bind (1, "night")]
  exact (hfreed [] (0, "main") [(1, "night")] rfl).2 (2, "main") rfl

end JobWatch.Registry
