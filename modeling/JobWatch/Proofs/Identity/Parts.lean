import JobWatch.Identity
import JobWatch.Proofs.Hash
import JobWatch.Proofs.Text.Digits

/-!
# The parts of an id

Where the process id is a number, an id falls into its parts again: the process id ends at the first
underscore, the hash has sixteen digits, and the host address is what stands between, whatever it
holds.
-/

set_option autoImplicit false

namespace JobWatch

theorem Sha256.length_toList_shortHex (s : String) : (shortHex s).toList.length = 16 := by
  simp [shortHex, Text.hexPair, List.length_flatMap, length_bytesOf]

namespace Identity

def Numbered (p : Identity) : Prop := ∀ c ∈ p.pid.toList, Text.isDigit c = true

/-- What stands before the first underscore of an id, and behind it all but the last seventeen
characters and the last sixteen. -/
def partsOf (id : String) : String × String × String :=
  let rest := (id.toList.dropWhile (· ≠ '_')).drop 1
  (.ofList (id.toList.takeWhile (· ≠ '_')), .ofList (rest.take (rest.length - 17)),
    .ofList (rest.drop (rest.length - 16)))

theorem numbered_decimal (n : Nat) (host : String) :
    Numbered ⟨String.ofList (Text.decimal n), host⟩ := by
  intro c hc
  rw [String.toList_ofList] at hc
  exact Text.isDigit_of_mem_decimal n c hc

theorem Numbered.ne_underscore {p : Identity} (hp : p.Numbered) :
    ∀ c ∈ p.pid.toList, decide (c ≠ '_') = true := by
  rintro c hc
  apply decide_eq_true
  rintro rfl
  exact absurd (hp '_' hc) (by decide)

theorem toList_jobId (p : Identity) (key : Key) :
    (p.jobId key).toList =
      p.pid.toList ++ '_' :: (p.host.toList ++ '_' :: (Sha256.shortHex key.dotted).toList) := by
  simp [jobId]

theorem partsOf_jobId {p : Identity} (hp : p.Numbered) (key : Key) :
    partsOf (p.jobId key) = (p.pid, p.host, Sha256.shortHex key.dotted) := by
  have hpid := hp.ne_underscore
  have hlength : (p.host.toList ++ '_' :: (Sha256.shortHex key.dotted).toList).length =
      p.host.toList.length + 17 := by
    rw [List.length_append, List.length_cons, Sha256.length_toList_shortHex]
  have hhash : (p.host.toList ++ '_' :: (Sha256.shortHex key.dotted).toList).drop
      (p.host.toList.length + 1) = (Sha256.shortHex key.dotted).toList := by
    simp [List.drop_append]
  unfold partsOf
  rw [toList_jobId, List.takeWhile_append_of_pos hpid, List.dropWhile_append_of_pos hpid,
    List.takeWhile_cons_of_neg (by decide), List.dropWhile_cons_of_neg (by decide)]
  simp only [List.drop_one, List.tail_cons]
  rw [hlength, Nat.add_sub_cancel, List.take_left]
  simp [hhash]

/-- Ids of processes whose ids are numbers are the same only if all their parts are, and each falls
into its parts. -/
theorem jobId_eq_iff_parts {p p' : Identity} (hp : p.Numbered) (hp' : p'.Numbered) (k k' : Key) :
    partsOf (p.jobId k) = (p.pid, p.host, Sha256.shortHex k.dotted) ∧
    (p.jobId k = p'.jobId k' ↔
      p.pid = p'.pid ∧ p.host = p'.host ∧ Sha256.front k.dotted = Sha256.front k'.dotted) := by
  refine ⟨partsOf_jobId hp k, ?_⟩
  rw [← Sha256.shortHex_eq_iff]
  constructor
  · intro h
    have hparts := congrArg partsOf h
    rw [partsOf_jobId hp, partsOf_jobId hp'] at hparts
    simpa using hparts
  · rintro ⟨hpid, hhost, hhash⟩
    rw [jobId, jobId, hpid, hhost, hhash]

theorem jobId_of_deceptive_host :
    let p := resolve ⟨String.ofList (Text.decimal 12), "10.0.0.1"⟩ none
      (some "3_10.0.0.1_845e30448809e2bc")
    let p' := resolve ⟨String.ofList (Text.decimal 12), "10.0.0.1"⟩ none (some "3_10.0.0.1")
    p.Numbered ∧ p'.Numbered ∧
    partsOf (p.jobId ⟨"sync", "pull"⟩) =
      ("12", "3_10.0.0.1_845e30448809e2bc", Sha256.shortHex "sync.pull") ∧
    p.jobId ⟨"sync", "pull"⟩ ≠ p'.jobId ⟨"a", "b.c"⟩ := by
  intro p p'
  have hp : p.Numbered := numbered_decimal 12 _
  have hp' : p'.Numbered := numbered_decimal 12 _
  have hpid : p.pid = "12" := by decide +kernel
  have htext : Key.dotted ⟨"sync", "pull"⟩ = "sync.pull" := by decide +kernel
  obtain ⟨hparts, hiff⟩ := jobId_eq_iff_parts hp hp' ⟨"sync", "pull"⟩ ⟨"a", "b.c"⟩
  rw [hpid, htext] at hparts
  refine ⟨hp, hp', hparts, ?_⟩
  rw [ne_eq, hiff]
  rintro ⟨-, hhost, -⟩
  exact absurd hhost (by decide)

end Identity

end JobWatch
