import JobWatch.Proofs.Catalog.Consistency
import JobWatch.Proofs.Hash
import JobWatch.Proofs.Key
import JobWatch.Proofs.Poll.Share

/-!
# Ids tell jobs apart by the texts of their keys

The jobs of a catalog have distinct keys. Their ids are distinct as far as the texts of the keys
are, but for collisions of the short hash.
-/

set_option autoImplicit false

namespace JobWatch

open Calendar (Instant)

theorem Identity.jobId_eq_iff (p : Identity) (k k' : Key) :
    p.jobId k = p.jobId k' ↔
      k = k' ∨ k.Confusable k' ∨ Sha256.Collide k.dotted k'.dotted := by
  rw [jobId, jobId, String.append_right_inj, Sha256.shortHex_eq_iff_collide, Key.dotted_eq_iff,
    or_assoc]

namespace Catalog

theorem jobId_of_mem_block {identity : Identity} {now : Instant} {h : Handle}
    {running : List Execution} {jobs : List Job} {block : List Snapshot}
    (hblock : List.Forall₂ (Snapshot.Depicts identity now h running) jobs block) :
    ∀ s ∈ block, s.jobId = identity.jobId s.key := by
  induction hblock with
  | nil => simp
  | cons hs _ ih =>
    rw [List.forall_mem_cons]
    refine ⟨?_, ih⟩
    rw [hs.jobId, hs.key_eq]

/-- Each job of a catalog has one snapshot. Two snapshots of different jobs have the same id only if
the keys can be confused or the short hash collides on different texts; where no group holds a
point, only if the hash collides. -/
theorem jobIds_distinct (ops : List Op) (name : String) (identity : Identity) (now : Instant) :
    ∃ block, ((run ops {}).handle name).Shares identity now block ∧
      block.map Snapshot.key = (run ops {}).jobs.map (·.key) ∧
      (block.map Snapshot.key).Nodup ∧
      (∀ s ∈ block, ∀ s' ∈ block, s.jobId = s'.jobId ↔
        s.key = s'.key ∨ s.key.Confusable s'.key ∨ Sha256.Collide s.key.dotted s'.key.dotted) ∧
      ∀ s ∈ block, ∀ s' ∈ block, '.' ∉ s.group.toList → '.' ∉ s'.group.toList →
        (s.jobId = s'.jobId ↔ s.key = s'.key ∨ Sha256.Collide s.key.dotted s'.key.dotted) := by
  have hc := run_consistent ops empty_consistent
  obtain ⟨block, hshares, hblock⟩ := exists_shares identity now name (run ops {})
  have hkeys := Snapshot.map_key_of_depicts hblock
  have hids := jobId_of_mem_block hblock
  have hiff : ∀ s ∈ block, ∀ s' ∈ block, s.jobId = s'.jobId ↔
      s.key = s'.key ∨ s.key.Confusable s'.key ∨ Sha256.Collide s.key.dotted s'.key.dotted := by
    intro s hs s' hs'
    rw [hids s hs, hids s' hs', identity.jobId_eq_iff]
  refine ⟨block, hshares, hkeys, hkeys ▸ hc.jobs_nodup, hiff, ?_⟩
  intro s hs s' hs' hgroup hgroup'
  rw [hiff s hs s' hs']
  refine or_congr_right (or_iff_right ?_)
  intro hconfusable
  exact hconfusable.point_mem_group.elim hgroup hgroup'

def oneText : List Op :=
  [.addJob ⟨⟨"a", "b.c"⟩, none, "app.Held"⟩, .addJob ⟨⟨"a.b", "c"⟩, none, "app.Other"⟩]

/-- Two jobs of a catalog have one id although the hash does not collide. -/
theorem one_jobId_for_two_jobs :
    ∃ s s', ((run oneText {}).handle "main").Shares ⟨"99", "127.0.0.1"⟩ (afterEight 5) [s, s'] ∧
      s.key = ⟨"a", "b.c"⟩ ∧ s'.key = ⟨"a.b", "c"⟩ ∧ s.jobId = s'.jobId ∧
      ¬ Sha256.Collide s.key.dotted s'.key.dotted := by
  obtain ⟨block, hshares, hblock⟩ := exists_shares ⟨"99", "127.0.0.1"⟩ (afterEight 5) "main"
    (run oneText {})
  have hjobs : (run oneText {}).jobs =
    [⟨⟨"a", "b.c"⟩, none, "app.Held"⟩, ⟨⟨"a.b", "c"⟩, none, "app.Other"⟩] := rfl
  rw [hjobs] at hblock
  have hids := jobId_of_mem_block hblock
  obtain ⟨s, others, hs, hothers, rfl⟩ := List.forall₂_cons_left_iff.mp hblock
  obtain ⟨s', rest, hs', hrest, rfl⟩ := List.forall₂_cons_left_iff.mp hothers
  obtain rfl := List.forall₂_nil_left_iff.mp hrest
  have hkey : s.key = ⟨"a", "b.c"⟩ := hs.key_eq
  have hkey' : s'.key = ⟨"a.b", "c"⟩ := hs'.key_eq
  have htext : s.key.dotted = s'.key.dotted := by
    rw [hkey, hkey']
    decide +kernel
  refine ⟨s, s', hshares, hkey, hkey', ?_, fun hcollide => hcollide.1 htext⟩
  rw [hids s (by simp), hids s' (by simp), Identity.jobId, Identity.jobId, htext]

def oneGroup : List Op :=
  [.addJob ⟨⟨"sync", "pull.fast"⟩, none, "app.Pull"⟩, .addJob ⟨⟨"sync", "pull"⟩, none, "app.Pull"⟩]

theorem two_jobIds_in_one_group :
    '.' ∉ "sync".toList ∧
    ∃ s s', ((run oneGroup {}).handle "main").Shares ⟨"99", "127.0.0.1"⟩ (afterEight 5) [s, s'] ∧
      s.key ≠ s'.key ∧ s.jobId ≠ s'.jobId := by
  have hgroup : '.' ∉ "sync".toList := by decide
  obtain ⟨block, hshares, hkeys, -, -, hplain⟩ := jobIds_distinct oneGroup "main"
    ⟨"99", "127.0.0.1"⟩ (afterEight 5)
  have hjobs : (run oneGroup {}).jobs.map (·.key) = [⟨"sync", "pull.fast"⟩, ⟨"sync", "pull"⟩] := rfl
  rw [hjobs, List.map_eq_cons_iff] at hkeys
  obtain ⟨s, rest, rfl, hkey, hrest⟩ := hkeys
  obtain ⟨s', rfl, hkey'⟩ := List.map_eq_singleton_iff.mp hrest
  have hs : s.group = "sync" := congrArg Key.group hkey
  have hs' : s'.group = "sync" := congrArg Key.group hkey'
  have hiff := hplain s (by simp) s' (by simp) (hs ▸ hgroup) (hs' ▸ hgroup)
  rw [hkey, hkey'] at hiff
  refine ⟨hgroup, s, s', hshares, by simp [hkey, hkey'], ?_⟩
  rw [ne_eq, hiff]
  decide +kernel

end Catalog

end JobWatch
