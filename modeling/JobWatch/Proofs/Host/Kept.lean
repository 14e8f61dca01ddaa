import JobWatch.Host
import JobWatch.Proofs.Poll.Failure
import JobWatch.Proofs.Registry

/-!
# Polls of schedulers with a catalog succeed

As long as only schedulers that answer from a catalog are bound, the registry is never poisoned and
every bound scheduler still has its catalog. Such a scheduler knows of every trigger that it hands
out, so that no question of a poll fails, and each job comes up once.
-/

set_option autoImplicit false

namespace JobWatch

open Calendar (Instant)

namespace Catalog

theorem isPaused_of_mem {c : Catalog} {t : Trigger} (ht : t ∈ c.triggers) :
    c.isPaused t.key = .ok (c.paused.contains t.key) := by
  have hheld : c.holdsTrigger t.key = true := List.any_eq_true.mpr ⟨t, ht, by simp⟩
  rw [isPaused, if_pos hheld]

theorem handle_not_faulty (name : String) (c : Catalog) : ¬ (c.handle name).Faulty := by
  rintro (⟨cause, hcause⟩ | ⟨jobs, -, job, -, cause, hcause | ⟨triggers, htriggers, hends⟩⟩)
  · cases hcause
  · cases hcause
  · cases htriggers
    obtain ⟨before, t, after, heq, -, hfault⟩ := hends
    have ht : t ∈ c.triggersOf job.key := by simp [heq]
    have hknown := isPaused_of_mem (List.mem_of_mem_filter ht)
    exact absurd (hknown.symm.trans hfault) (by simp)

theorem handle_passes (name : String) (c : Catalog) : Poll.Passes (c.handle name) :=
  ⟨by simp [handle], handle_not_faulty name c⟩

theorem map_key_of_yields {identity : Identity} {now : Instant} {name : String} {c : Catalog}
    {block : List Snapshot} (h : (c.handle name).Yields identity now block) :
    block.map Snapshot.key = c.jobs.map (·.key) := by
  obtain ⟨-, running, -, hblock⟩ := h
  exact Snapshot.map_key_of_depicts hblock

theorem map_key_of_lists {identity : Identity} {now : Instant} {bound : List (String × Catalog)}
    {snapshots : List Snapshot}
    (h : Poll.Lists identity now (bound.map fun b => b.2.handle b.1) snapshots) :
    snapshots.map Snapshot.key = bound.flatMap fun b => b.2.jobs.map (·.key) := by
  obtain ⟨blocks, hblocks, rfl⟩ := h
  rw [List.forall₂_map_left_iff] at hblocks
  induction hblocks with
  | nil => rfl
  | cons hblock _ ih => simp [map_key_of_yields hblock, ih]

end Catalog

namespace Poll

theorem exists_schedulers_done (identity : Identity) (now : Instant) {handles : List Handle}
    (hpass : ∀ h ∈ handles, Passes h) :
    ∃ snapshots, (schedulers identity now handles).outcome = .done snapshots := by
  induction handles with
  | nil => exact ⟨[], rfl⟩
  | cons h handles ih =>
    obtain ⟨first, hfirst⟩ := (scheduler_passes_iff identity now h).mpr (hpass h (by simp))
    obtain ⟨more, hmore⟩ := ih fun g hg => hpass g (by simp [hg])
    exact ⟨first ++ more, by simp [outcome_schedulers_cons, hfirst, hmore]⟩

end Poll

namespace Host

def RefersToKept (host : Host) (ref : Nat) : Prop :=
  ∃ name catalog, host.schedulers[ref]? = some (.kept name catalog)

structure Kept (host : Host) : Prop where
  free : host.registry.poisoned = false
  bound : ∀ ref ∈ host.registry.bound, host.RefersToKept ref

def OnlyKeptBound : List Op → Host → Prop
  | [], _ => True
  | op :: ops, host =>
    (∀ ref, op = .bind ref → ∀ h, host.schedulers[ref]? ≠ some (.foreign h)) ∧
      OnlyKeptBound ops (host.step op)

theorem RefersToKept.nameOf_ne_none {host : Host} {ref : Nat} (h : host.RefersToKept ref) :
    host.nameOf ref ≠ none := by
  obtain ⟨name, catalog, href⟩ := h
  simp [nameOf, href, Scheduler.handle, Catalog.handle]

theorem RefersToKept.modify {host : Host} {ref : Nat} (h : host.RefersToKept ref)
    {f : Scheduler → Scheduler}
    (hf : ∀ name catalog, ∃ after, f (.kept name catalog) = .kept name after) (changed : Nat) :
    (host.modify f changed).RefersToKept ref := by
  obtain ⟨name, catalog, href⟩ := h
  obtain ⟨after, hafter⟩ := hf name catalog
  by_cases hchanged : changed = ref
  · exact ⟨name, after, by simp [Host.modify, href, hchanged, hafter]⟩
  · exact ⟨name, catalog, by simp [Host.modify, href, hchanged]⟩

theorem RefersToKept.add {host : Host} {ref : Nat} (h : host.RefersToKept ref) (s : Scheduler) :
    (host.step (.add s)).RefersToKept ref := by
  obtain ⟨name, catalog, href⟩ := h
  refine ⟨name, catalog, ?_⟩
  change (host.schedulers ++ [s])[ref]? = _
  rw [List.getElem?_append_left (List.getElem?_eq_some_iff.mp href).1, href]

theorem refersToKept_of_named {host : Host} {ref : Nat} {name : String}
    (hname : host.nameOf ref = some name)
    (hforeign : ∀ h, host.schedulers[ref]? ≠ some (.foreign h)) : host.RefersToKept ref := by
  unfold nameOf at hname
  cases href : host.schedulers[ref]? with
  | none => simp [href] at hname
  | some s =>
    cases s with
    | kept name catalog => exact ⟨name, catalog, href⟩
    | foreign h => exact absurd href (hforeign h)

theorem step_kept {host : Host} (hhost : host.Kept) (op : Op)
    (hop : ∀ ref, op = .bind ref → ∀ h, host.schedulers[ref]? ≠ some (.foreign h)) :
    (host.step op).Kept := by
  have hreadable : ∀ ref ∈ host.registry.bound, host.nameOf ref ≠ none :=
    fun ref href => (hhost.bound ref href).nameOf_ne_none
  cases op with
  | add s => exact ⟨hhost.free, fun ref href => (hhost.bound ref href).add s⟩
  | loseName changed =>
    exact ⟨hhost.free, fun ref href => (hhost.bound ref href).modify
      (fun name catalog => ⟨catalog, rfl⟩) changed⟩
  | change changed op =>
    exact ⟨hhost.free, fun ref href => (hhost.bound ref href).modify
      (fun name catalog => ⟨catalog.step op, rfl⟩) changed⟩
  | bind ref =>
    change Kept { host with registry := (host.registry.bind host.nameOf ref).1 }
    cases hname : host.nameOf ref with
    | none => simpa [Registry.bind, hname] using hhost
    | some name =>
      rw [Registry.bind_of_readable host.nameOf ref hname hhost.free hreadable]
      split
      next => exact hhost
      next =>
        refine ⟨hhost.free, ?_⟩
        intro other hother
        rcases List.mem_append.mp hother with hbound | hnew
        · exact hhost.bound other hbound
        · obtain rfl := List.mem_singleton.mp hnew
          exact refersToKept_of_named hname (hop other rfl)
  | unbind name =>
    change Kept { host with registry := (host.registry.unbind host.nameOf name).1 }
    rw [Registry.unbind_of_readable host.nameOf name hhost.free hreadable]
    exact ⟨hhost.free, fun ref href => hhost.bound ref (List.mem_of_mem_filter href)⟩

theorem run_kept (ops : List Op) {host : Host} (hhost : host.Kept)
    (hops : OnlyKeptBound ops host) : (run ops host).Kept := by
  induction ops generalizing host with
  | nil => exact hhost
  | cons op ops ih => exact ih (step_kept hhost op hops.1) hops.2

theorem empty_kept : Kept {} := ⟨rfl, nofun⟩

theorem exists_catalogs {host : Host} {refs : List Nat}
    (hrefs : ∀ ref ∈ refs, host.RefersToKept ref) :
    ∃ bound : List (String × Catalog),
      refs.map (host.schedulers[·]?) = bound.map fun b => some (.kept b.1 b.2) := by
  induction refs with
  | nil => exact ⟨[], rfl⟩
  | cons ref refs ih =>
    obtain ⟨name, catalog, href⟩ := hrefs ref (by simp)
    obtain ⟨bound, hbound⟩ := ih fun r hr => hrefs r (by simp [hr])
    exact ⟨(name, catalog) :: bound, by simp [href, hbound]⟩

theorem handles_of_catalogs {host : Host} {refs : List Nat} {bound : List (String × Catalog)}
    (hbound : refs.map (host.schedulers[·]?) = bound.map fun b => some (.kept b.1 b.2)) :
    host.handles refs = bound.map fun b => b.2.handle b.1 := by
  have hmap : host.handles refs =
      (refs.map (host.schedulers[·]?)).filterMap fun s => s.map Scheduler.handle := by
    simp [handles, List.filterMap_map]
  rw [hmap, hbound]
  simp [List.filterMap_map, Function.comp_def, Scheduler.handle]

/-- In a process where only schedulers with a catalog are bound, a poll comes to an end with one
snapshot for each job of each bound scheduler, and no scheduler is asked about a trigger it does not
know. -/
theorem poll_of_kept_done (ops : List Op) (hops : OnlyKeptBound ops {}) (identity : Identity)
    (now : Instant) :
    ∃ bound : List (String × Catalog),
      (run ops {}).registry.bound.map ((run ops {}).schedulers[·]?) =
        bound.map (fun b => some (.kept b.1 b.2)) ∧
      (∃ snapshots, ((run ops {}).poll ⟨identity, .available⟩ now).outcome = .done snapshots ∧
        snapshots.map Snapshot.key = bound.flatMap fun b => b.2.jobs.map (·.key)) ∧
      ∀ b ∈ bound, ∀ job, ∃ triggers, (b.2.handle b.1).triggersOf job = .ok triggers ∧
        ∀ t ∈ triggers, ∃ paused, (b.2.handle b.1).isPaused t.key = .ok paused := by
  have hkept := run_kept ops empty_kept hops
  obtain ⟨bound, hbound⟩ := exists_catalogs hkept.bound
  refine ⟨bound, hbound, ?_, ?_⟩
  · have hlookup : (run ops {}).lookup = .ok (bound.map fun b => b.2.handle b.1) := by
      rw [lookup, Registry.lookup, hkept.free, ← handles_of_catalogs hbound]
      rfl
    have hpass : ∀ h ∈ bound.map fun b => b.2.handle b.1, Poll.Passes h := by
      intro h hh
      obtain ⟨b, -, rfl⟩ := List.mem_map.mp hh
      exact b.2.handle_passes b.1
    obtain ⟨snapshots, hdone⟩ := Poll.exists_schedulers_done identity now hpass
    refine ⟨snapshots, ?_, ?_⟩
    · rw [poll, hlookup, Poll.outcome_poll]
      exact hdone
    · exact Catalog.map_key_of_lists ((Poll.schedulers_done_iff identity now _ _).mp hdone)
  · intro b _ job
    refine ⟨b.2.triggersOf job, rfl, ?_⟩
    intro t ht
    exact ⟨_, Catalog.isPaused_of_mem (List.mem_of_mem_filter ht)⟩

def movedPausedUnbound : List Op :=
  [.add (.kept "alpha" {}),
    .add (.kept "gamma" {}),
    .bind 0,
    .change 0 (.addJob ⟨⟨"sync", "pull"⟩, none, "app.Pull"⟩),
    .change 0 (.schedule ⟨⟨"sync", "hourly"⟩, ⟨"sync", "absent"⟩, .other, none, none⟩),
    .change 0 (.schedule ⟨⟨"sync", "hourly"⟩, ⟨"sync", "pull"⟩, .other, none, none⟩),
    .change 0 (.pause ⟨"sync", "hourly"⟩),
    .change 0 (.removeJob ⟨"sync", "absent"⟩),
    .bind 1,
    .change 1 (.addJob ⟨⟨"sync", "push"⟩, none, "app.Push"⟩),
    .unbind "gamma"]

theorem poll_after_move_done :
    OnlyKeptBound movedPausedUnbound {} ∧
    ∃ snapshots, ((run movedPausedUnbound {}).poll ⟨⟨"99", "127.0.0.1"⟩, .available⟩
        ⟨19783, 28800, 0, by decide, by decide, by decide, by decide⟩).outcome =
          .done snapshots ∧
      snapshots.map Snapshot.key = [⟨"sync", "pull"⟩] := by
  have hops : OnlyKeptBound movedPausedUnbound {} := by
    refine ⟨nofun, nofun, ?_, nofun, nofun, nofun, nofun, nofun, ?_, nofun, nofun, trivial⟩
    · rintro ref ⟨⟩ h ⟨⟩
    · rintro ref ⟨⟩ h ⟨⟩
  obtain ⟨bound, hbound, ⟨snapshots, hdone, hkeys⟩, -⟩ :=
    poll_of_kept_done movedPausedUnbound hops ⟨"99", "127.0.0.1"⟩
      ⟨19783, 28800, 0, by decide, by decide, by decide, by decide⟩
  have halpha : (run movedPausedUnbound {}).registry.bound.map
      ((run movedPausedUnbound {}).schedulers[·]?) = [some (.kept "alpha" {
        jobs := [⟨⟨"sync", "pull"⟩, none, "app.Pull"⟩]
        triggers := [⟨⟨"sync", "hourly"⟩, ⟨"sync", "pull"⟩, .other, none, none⟩]
        paused := [⟨"sync", "hourly"⟩] })] := rfl
  rw [halpha, eq_comm, List.map_eq_singleton_iff] at hbound
  obtain ⟨⟨name, catalog⟩, rfl, hcatalog⟩ := hbound
  cases hcatalog
  exact ⟨hops, snapshots, hdone, hkeys⟩

end Host

end JobWatch
