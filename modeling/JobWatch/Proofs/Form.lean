import JobWatch.Form
import JobWatch.Proofs.Calendar.Timestamp
import JobWatch.Proofs.Json.Members

/-!
# Values are read back from their forms

Every value of the domain is read back from the form that is written for it, also after its members
were reordered and unknown ones came among them at any depth. Its instants are those that their
texts name, so it is the value itself unless one has a leap second inside a minute. Which members an
object is known to have hangs on the record that it stands for; for a timing, on the type.
-/

set_option autoImplicit false

namespace JobWatch

open Calendar (Instant)
open Json

section Layouts

def Key.layout : Layout := .record [("group", .plain), ("name", .plain)]

def Job.layout : Layout :=
  .record [("key", Key.layout), ("description", .plain), ("job_class", .plain)]

def Execution.layout : Layout := .record [("job", Job.layout), ("fire_time", .plain)]

def Timing.content : Timing → List (String × Layout)
  | .cron _ => [("expression", .plain)]
  | .every _ => [("interval_ms", .plain)]
  | .other => []

def Timing.layout (t : Timing) : Layout := .record (("type", .plain) :: t.content)

def Trigger.layout (t : Trigger) : Layout :=
  .record [("key", Key.layout), ("job_key", Key.layout), ("kind", t.timing.layout),
    ("previous_fire_time", .plain), ("next_fire_time", .plain)]

def Identity.layout : Layout := .record [("pid", .plain), ("host_address", .plain)]

def Snapshot.layout : Layout :=
  .record [("group", .plain), ("name", .plain), ("description", .plain), ("jobClassName", .plain),
    ("previousFireTime", .plain), ("nextFireTime", .plain), ("elapsedTimeMs", .plain),
    ("repeatIntervalMs", .plain), ("cronExpression", .plain), ("paused", .plain),
    ("globalJobId", .plain)]

def AgentSettings.layout : Layout := .record [("process_id", .plain), ("host_address", .plain)]

def SchedulingSettings.layout : Layout := .record [("enabled", .plain)]

def ObservabilitySettings.layout : Layout := .record [("log_level", .plain)]

def Settings.layout : Layout :=
  .record [("agent", AgentSettings.layout), ("scheduling", SchedulingSettings.layout),
    ("observability", ObservabilitySettings.layout)]

end Layouts

section Instants

def Execution.asWritten (e : Execution) : Execution := { e with started := e.started.asWritten }

def Trigger.asWritten (t : Trigger) : Trigger :=
  { t with previous := t.previous.map Instant.asWritten, next := t.next.map Instant.asWritten }

def Snapshot.asWritten (s : Snapshot) : Snapshot :=
  { s with previous := s.previous.map Instant.asWritten, next := s.next.map Instant.asWritten }

theorem map_asWritten_eq_self_iff (o : Option Instant) :
    o.map Instant.asWritten = o ↔ ∀ i ∈ o, i.EndsMinute := by
  cases o <;> simp [Instant.asWritten_eq_self_iff]

theorem Execution.asWritten_eq_self_iff (e : Execution) :
    e.asWritten = e ↔ e.started.EndsMinute := by
  rw [← Instant.asWritten_eq_self_iff, asWritten]
  exact ⟨congrArg started, fun h => by rw [h]⟩

theorem Trigger.asWritten_eq_self_iff (t : Trigger) :
    t.asWritten = t ↔ (∀ i ∈ t.previous, i.EndsMinute) ∧ ∀ i ∈ t.next, i.EndsMinute := by
  rw [← map_asWritten_eq_self_iff, ← map_asWritten_eq_self_iff, asWritten]
  exact ⟨fun h => ⟨congrArg previous h, congrArg next h⟩, fun h => by rw [h.1, h.2]⟩

theorem Snapshot.asWritten_eq_self_iff (s : Snapshot) :
    s.asWritten = s ↔ (∀ i ∈ s.previous, i.EndsMinute) ∧ ∀ i ∈ s.next, i.EndsMinute := by
  rw [← map_asWritten_eq_self_iff, ← map_asWritten_eq_self_iff, asWritten]
  exact ⟨fun h => ⟨congrArg previous h, congrArg next h⟩, fun h => by rw [h.1, h.2]⟩

end Instants

section Written

theorem Calendar.Instant.ofJson?_toJson (i : Instant) :
    Instant.ofJson? i.toJson = some i.asWritten := by
  simp only [ofJson?, toJson, text?, Option.bind_eq_bind, Option.bind_some, ofText?_text]

theorem int64?_ofInt64 (n : Int64) : int64? (ofInt64 n) = some n := by
  have hlow : -9223372036854775808 ≤ n.toInt := Int64.le_toInt n
  have hhigh : n.toInt < 9223372036854775808 := Int64.toInt_lt n
  have hrange : Number.inRange64 n.toInt = true := by
    rw [Number.inRange64, Bool.and_eq_true, decide_eq_true_eq, decide_eq_true_eq]
    exact ⟨hlow, hhigh⟩
  rw [ofInt64, int64?, if_pos hrange, Int64.ofInt_toInt]

theorem optional_text (o : Option String) : optional text? (some (ofOption .text o)) = some o := by
  cases o <;> rfl

theorem optional_instant (o : Option Instant) :
    optional Instant.ofJson? (some (ofOption Instant.toJson o)) =
      some (o.map Instant.asWritten) := by
  cases o with
  | none => rfl
  | some i =>
    show (Instant.ofJson? i.toJson).map some = some (some i.asWritten)
    rw [i.ofJson?_toJson, Option.map_some]

theorem Key.ofJson?_toJson (k : Key) : Key.ofJson? k.toJson = some k := rfl

theorem Job.ofJson?_toJson (job : Job) : Job.ofJson? job.toJson = some job := by
  show (optional text? (some (ofOption .text job.description)) >>= fun description =>
    some (⟨job.key, description, job.className⟩ : Job)) = some job
  rw [optional_text]
  rfl

theorem Execution.ofJson?_toJson (e : Execution) :
    Execution.ofJson? e.toJson = some e.asWritten := by
  have hfields : fields? ["job", "fire_time"] 2 e.toJson =
      some [some e.job.toJson, some e.started.toJson] := rfl
  rw [ofJson?, hfields]
  simp only [required, Option.bind_some, e.job.ofJson?_toJson, e.started.ofJson?_toJson,
    Option.bind_eq_bind, asWritten]

theorem Timing.ofJson?_toJson (depth : Nat) (t : Timing) :
    Timing.ofJson? (depth + 1) t.toJson = some t := by
  cases t with
  | cron expression => cases depth <;> rfl
  | every millis =>
    have hread : Timing.ofJson? (depth + 1) (Timing.every millis).toJson =
        (int64? (ofInt64 millis) >>= fun millis => some (.every millis)) := by
      cases depth <;> rfl
    rw [hread, int64?_ofInt64]
    rfl
  | other => cases depth <;> rfl

theorem Trigger.ofJson?_toJson (t : Trigger) : Trigger.ofJson? t.toJson = some t.asWritten := by
  obtain ⟨key, job, timing, previous, next⟩ := t
  have htiming : Timing.ofJson? (Json.depthLimit - 1) timing.toJson = some timing :=
    Timing.ofJson?_toJson 125 timing
  have hfields : fields? ["key", "job_key", "kind", "previous_fire_time", "next_fire_time"] 3
      (toJson ⟨key, job, timing, previous, next⟩) =
      some [some key.toJson, some job.toJson, some timing.toJson, previous.map Instant.toJson,
        next.map Instant.toJson] := by
    cases previous <;> cases next <;> rfl
  have hoptional : ∀ o : Option Instant,
      optional Instant.ofJson? (o.map Instant.toJson) = some (o.map Instant.asWritten) := by
    intro o
    cases o with
    | none => rfl
    | some i => exact optional_instant (some i)
  rw [ofJson?, hfields]
  simp only [required, Option.bind_some, Key.ofJson?_toJson, htiming, hoptional,
    Option.bind_eq_bind, asWritten]

theorem Identity.ofJson?_toJson (p : Identity) : Identity.ofJson? p.toJson = some p := rfl

theorem Snapshot.ofJson?_toJson (s : Snapshot) :
    Snapshot.ofJson? s.toJson = some s.asWritten := by
  show (optional text? (some (ofOption .text s.description)) >>= fun description =>
    optional Instant.ofJson? (some (ofOption Instant.toJson s.previous)) >>= fun previous =>
    optional Instant.ofJson? (some (ofOption Instant.toJson s.next)) >>= fun next =>
    int64? (ofInt64 s.elapsedMillis) >>= fun elapsed =>
    int64? (ofInt64 s.intervalMillis) >>= fun interval =>
    optional text? (some (ofOption .text s.cron)) >>= fun cron =>
    some (⟨s.group, s.name, description, s.className, previous, next, elapsed, interval, cron,
      s.paused, s.jobId⟩ : Snapshot)) = some s.asWritten
  rw [optional_text, optional_text, optional_instant, optional_instant, int64?_ofInt64,
    int64?_ofInt64]
  rfl

theorem AgentSettings.ofJson?_toJson (s : AgentSettings) :
    AgentSettings.ofJson? s.toJson = some s := by
  show (optional text? (some (ofOption .text s.processId)) >>= fun processId =>
    optional text? (some (ofOption .text s.hostAddress)) >>= fun hostAddress =>
    some (⟨processId, hostAddress⟩ : AgentSettings)) = some s
  rw [optional_text, optional_text]
  rfl

theorem Settings.ofJson?_toJson (s : Settings) : Settings.ofJson? s.toJson = some s := by
  show (AgentSettings.ofJson? s.agent.toJson >>= fun agent =>
    some (⟨agent, s.scheduling, s.observability⟩ : Settings)) = some s
  rw [s.agent.ofJson?_toJson]
  rfl

end Written

section Kept

theorem Key.keeps (k : Key) : Keeps Key.layout Key.ofJson? k := by
  apply keeps_of_plain 2 (by decide) (by simp) rfl
  intro j j' h
  simp only [List.map_cons, List.map_nil] at h
  rw [Key.ofJson?, h, Key.ofJson?]

theorem Job.keeps (job : Job) : Keeps Job.layout Job.ofJson? job := by
  intro j j' h hread
  cases hvalues : fields? ["key", "description", "job_class"] 3 j with
  | none =>
    rw [Job.ofJson?, hvalues] at hread
    cases hread
  | some values =>
    obtain ⟨values', hvalues', htouched⟩ := fields?_of_change (by decide) h hvalues
    obtain _ | ⟨hkey, _ | ⟨hdescription, _ | ⟨hclassName, ⟨⟩⟩⟩⟩ := htouched
    obtain rfl := touched_plain hdescription
    obtain rfl := touched_plain hclassName
    simp only [Job.ofJson?, hvalues, Option.bind_eq_bind, Option.bind_eq_some_iff] at hread
    obtain ⟨key, hread, description, hreadDescription, className, hreadClassName, hjob⟩ := hread
    have hread' := required_of_touched (Key.keeps key) hkey hread
    simp only [List.map_cons, List.map_nil] at hvalues'
    simp only [Job.ofJson?, hvalues', hread', hreadDescription, hreadClassName, Option.bind_eq_bind,
      Option.bind_some]
    exact hjob

theorem Execution.keeps (e : Execution) : Keeps Execution.layout Execution.ofJson? e := by
  intro j j' h hread
  cases hvalues : fields? ["job", "fire_time"] 2 j with
  | none =>
    rw [Execution.ofJson?, hvalues] at hread
    cases hread
  | some values =>
    obtain ⟨values', hvalues', htouched⟩ := fields?_of_change (by decide) h hvalues
    obtain _ | ⟨hjob, _ | ⟨hstarted, ⟨⟩⟩⟩ := htouched
    obtain rfl := touched_plain hstarted
    simp only [Execution.ofJson?, hvalues, Option.bind_eq_bind, Option.bind_eq_some_iff] at hread
    obtain ⟨job, hread, started, hreadStarted, he⟩ := hread
    have hread' := required_of_touched (Job.keeps job) hjob hread
    simp only [List.map_cons, List.map_nil] at hvalues'
    simp only [Execution.ofJson?, hvalues', hread', hreadStarted, Option.bind_eq_bind,
      Option.bind_some]
    exact he

theorem Timing.content_plain (t : Timing) : ∀ m ∈ t.content, m.2 = .plain := by
  cases t <;> simp [content]

theorem Timing.content_nodup (t : Timing) : (t.content.map Prod.fst).Nodup := by
  cases t <;> simp [content]

theorem Timing.ofContent?_keeps (type : String) (t : Timing) :
    Keeps (.record t.content) (Timing.ofContent? type) t := by
  intro j j' h hread
  unfold Timing.ofContent? at hread
  split at hread
  next =>
    split at hread
    next expression hvalues =>
      simp only [Option.bind_eq_bind, Option.bind_eq_some_iff] at hread
      obtain ⟨e, he, ht⟩ := hread
      cases ht
      have hvalues' := fields?_of_change_of_plain (content_nodup _) (content_plain _) h hvalues
      simp only [content, List.map_cons, List.map_nil] at hvalues'
      simp only [Timing.ofContent?, hvalues', he, Option.bind_eq_bind, Option.bind_some]
    next => cases hread
  next =>
    split at hread
    next millis hvalues =>
      simp only [Option.bind_eq_bind, Option.bind_eq_some_iff] at hread
      obtain ⟨n, hn, ht⟩ := hread
      cases ht
      have hvalues' := fields?_of_change_of_plain (content_nodup _) (content_plain _) h hvalues
      simp only [content, List.map_cons, List.map_nil] at hvalues'
      simp only [Timing.ofContent?, hvalues', hn, Option.bind_eq_bind, Option.bind_some]
    next => cases hread
  next =>
    have ht : t = .other := by
      split at hread <;> cases hread <;> rfl
    rw [ht]
    cases h <;> rfl
  next => cases hread

/-- What stands beside the type is read if there is one type and all can be read. -/
theorem Timing.ofJson?_object_eq_some_iff (depth : Nat) (members : List (String × Json))
    (t : Timing) :
    Timing.ofJson? depth (.object members) = some t ↔
      (Json.object members).readable depth = true ∧
        ∃ type, named "type" members = [("type", .text type)] ∧
          Timing.ofContent? type (.object (members.filter (·.1 ≠ "type"))) = some t := by
  rw [Timing.ofJson?]
  by_cases hreadable : (Json.object members).readable depth = true
  · rw [if_pos hreadable]
    simp only [hreadable, true_and]
    constructor
    · intro h
      split at h
      next name type hone =>
        have hname : name = "type" := by
          have hmem : (name, Json.text type) ∈ members.filter (·.1 = "type") := by simp [hone]
          simpa using (List.mem_filter.mp hmem).2
        rw [hname] at hone
        exact ⟨type, hone, h⟩
      next => cases h
    · rintro ⟨type, hone, h⟩
      rw [named] at hone
      rw [hone]
      exact h
  · simp [hreadable]

theorem Timing.keeps (depth : Nat) (t : Timing) : Keeps t.layout (Timing.ofJson? depth) t := by
  intro j j' h hread
  have hplain : ∀ m ∈ ("type", Layout.plain) :: t.content, m.2 = .plain := by
    intro m hm
    cases List.mem_cons.mp hm with
    | inl htype => rw [htype]
    | inr hcontent => exact t.content_plain m hcontent
  have hreadable := readable_of_change hplain h depth
  cases h with
  | @reordered _ members members' hperm =>
    rw [Timing.ofJson?_object_eq_some_iff] at hread ⊢
    obtain ⟨hold, type, hone, hcontent⟩ := hread
    have hone' := named_reordered hperm "type" (by simp [hone])
    refine ⟨hreadable.trans hold, type, hone'.trans hone, ?_⟩
    exact Timing.ofContent?_keeps type t _ _ (.reordered (hperm.filter _)) hcontent
  | @added _ members name s hname =>
    rw [Timing.ofJson?_object_eq_some_iff] at hread ⊢
    obtain ⟨hold, type, hone, hcontent⟩ := hread
    have hne : name ≠ "type" := by
      intro heq
      simp [heq] at hname
    have hunknown : name ∉ t.content.map Prod.fst := by
      intro hmem
      exact hname (List.mem_cons_of_mem _ hmem)
    have hone' : named "type" ((name, .text s) :: members) = named "type" members :=
      List.filter_cons_of_neg (by simpa using hne)
    refine ⟨hreadable.trans hold, type, hone'.trans hone, ?_⟩
    rw [List.filter_cons_of_pos (by simpa using hne)]
    exact Timing.ofContent?_keeps type t _ _ (.added s hunknown) hcontent
  | inside hmem hchange =>
    have hlayout := hplain _ hmem
    simp only at hlayout
    subst hlayout
    cases hchange

theorem Trigger.keeps (t : Trigger) : Keeps t.layout Trigger.ofJson? t := by
  intro j j' h hread
  cases hvalues :
      fields? ["key", "job_key", "kind", "previous_fire_time", "next_fire_time"] 3 j with
  | none =>
    rw [Trigger.ofJson?, hvalues] at hread
    cases hread
  | some values =>
    obtain ⟨values', hvalues', htouched⟩ := fields?_of_change (by simp) h hvalues
    obtain _ | ⟨hkey, _ | ⟨hjob, _ | ⟨htiming, _ | ⟨hprevious, _ | ⟨hnext, ⟨⟩⟩⟩⟩⟩⟩ := htouched
    obtain rfl := touched_plain hprevious
    obtain rfl := touched_plain hnext
    simp only [Trigger.ofJson?, hvalues, Option.bind_eq_bind, Option.bind_eq_some_iff] at hread
    obtain ⟨key, hreadKey, job, hreadJob, timing, hreadTiming, previous, hreadPrevious, next,
      hreadNext, ht⟩ := hread
    cases ht
    have hkey' := required_of_touched (Key.keeps key) hkey hreadKey
    have hjob' := required_of_touched (Key.keeps job) hjob hreadJob
    have htiming' := required_of_touched (Timing.keeps _ timing) htiming hreadTiming
    simp only [List.map_cons, List.map_nil] at hvalues'
    simp only [Trigger.ofJson?, hvalues', hkey', hjob', htiming', hreadPrevious, hreadNext,
      Option.bind_eq_bind, Option.bind_some]

theorem Identity.keeps (p : Identity) : Keeps Identity.layout Identity.ofJson? p := by
  apply keeps_of_plain 2 (by decide) (by simp) rfl
  intro j j' h
  simp only [List.map_cons, List.map_nil] at h
  rw [Identity.ofJson?, h, Identity.ofJson?]

theorem Snapshot.keeps (s : Snapshot) : Keeps Snapshot.layout Snapshot.ofJson? s := by
  apply keeps_of_plain 11 (by decide) (by simp) rfl
  intro j j' h
  simp only [List.map_cons, List.map_nil] at h
  rw [Snapshot.ofJson?, h, Snapshot.ofJson?]

theorem AgentSettings.keeps (s : AgentSettings) :
    Keeps AgentSettings.layout AgentSettings.ofJson? s := by
  apply keeps_of_plain 0 (by decide) (by simp) rfl
  intro j j' h
  simp only [List.map_cons, List.map_nil] at h
  rw [AgentSettings.ofJson?, h, AgentSettings.ofJson?]

theorem SchedulingSettings.keeps (s : SchedulingSettings) :
    Keeps SchedulingSettings.layout SchedulingSettings.ofJson? s := by
  apply keeps_of_plain 0 (by decide) (by simp) rfl
  intro j j' h
  simp only [List.map_cons, List.map_nil] at h
  rw [SchedulingSettings.ofJson?, h, SchedulingSettings.ofJson?]

theorem ObservabilitySettings.keeps (s : ObservabilitySettings) :
    Keeps ObservabilitySettings.layout ObservabilitySettings.ofJson? s := by
  apply keeps_of_plain 0 (by decide) (by simp) rfl
  intro j j' h
  simp only [List.map_cons, List.map_nil] at h
  rw [ObservabilitySettings.ofJson?, h, ObservabilitySettings.ofJson?]

theorem Settings.keeps (s : Settings) : Keeps Settings.layout Settings.ofJson? s := by
  intro j j' h hread
  cases hvalues : fields? ["agent", "scheduling", "observability"] 0 j with
  | none =>
    rw [Settings.ofJson?, hvalues] at hread
    cases hread
  | some values =>
    obtain ⟨values', hvalues', htouched⟩ := fields?_of_change (by decide) h hvalues
    obtain _ | ⟨hagent, _ | ⟨hscheduling, _ | ⟨hobservability, ⟨⟩⟩⟩⟩ := htouched
    simp only [Settings.ofJson?, hvalues, Option.bind_eq_bind, Option.bind_eq_some_iff] at hread
    obtain ⟨agent, hreadAgent, scheduling, hreadScheduling, observability, hreadObservability,
      hs⟩ := hread
    have hagent' := withDefault_of_touched (AgentSettings.keeps agent) hagent hreadAgent
    have hscheduling' :=
      withDefault_of_touched (SchedulingSettings.keeps scheduling) hscheduling hreadScheduling
    have hobservability' :=
      withDefault_of_touched (ObservabilitySettings.keeps observability) hobservability
        hreadObservability
    simp only [List.map_cons, List.map_nil] at hvalues'
    simp only [Settings.ofJson?, hvalues', hagent', hscheduling', hobservability',
      Option.bind_eq_bind, Option.bind_some]
    exact hs

end Kept

/-- Every value of the domain is read back from the form that is written for it, and from what that
form becomes by any number of changes of order and unknown members. With leap seconds inside minutes
it is read back as the value whose instants their texts name, and is another one. -/
theorem forms_read_back :
    (∀ k : Key, ReadsBack Key.layout Key.ofJson? k.toJson k) ∧
    (∀ job : Job, ReadsBack Job.layout Job.ofJson? job.toJson job) ∧
    (∀ (depth : Nat) (t : Timing), ReadsBack t.layout (Timing.ofJson? (depth + 1)) t.toJson t) ∧
    (∀ t : Trigger, ReadsBack t.layout Trigger.ofJson? t.toJson t.asWritten ∧
      (t.asWritten = t ↔ (∀ i ∈ t.previous, i.EndsMinute) ∧ ∀ i ∈ t.next, i.EndsMinute)) ∧
    (∀ e : Execution, ReadsBack Execution.layout Execution.ofJson? e.toJson e.asWritten ∧
      (e.asWritten = e ↔ e.started.EndsMinute)) ∧
    (∀ p : Identity, ReadsBack Identity.layout Identity.ofJson? p.toJson p) ∧
    (∀ s : AgentSettings, ReadsBack AgentSettings.layout AgentSettings.ofJson? s.toJson s) ∧
    (∀ s : SchedulingSettings,
      ReadsBack SchedulingSettings.layout SchedulingSettings.ofJson? s.toJson s) ∧
    (∀ s : ObservabilitySettings,
      ReadsBack ObservabilitySettings.layout ObservabilitySettings.ofJson? s.toJson s) ∧
    (∀ s : Settings, ReadsBack Settings.layout Settings.ofJson? s.toJson s) ∧
    ∀ s : Snapshot, ReadsBack Snapshot.layout Snapshot.ofJson? s.toJson s.asWritten ∧
      (s.asWritten = s ↔ (∀ i ∈ s.previous, i.EndsMinute) ∧ ∀ i ∈ s.next, i.EndsMinute) := by
  refine ⟨?_, ?_, ?_, ?_, ?_, ?_, ?_, ?_, ?_, ?_, ?_⟩
  · exact fun k => k.keeps.readsBack k.ofJson?_toJson
  · exact fun job => job.keeps.readsBack job.ofJson?_toJson
  · exact fun depth t => (t.keeps (depth + 1)).readsBack (t.ofJson?_toJson depth)
  · exact fun t => ⟨t.asWritten.keeps.readsBack t.ofJson?_toJson, t.asWritten_eq_self_iff⟩
  · exact fun e => ⟨e.asWritten.keeps.readsBack e.ofJson?_toJson, e.asWritten_eq_self_iff⟩
  · exact fun p => p.keeps.readsBack p.ofJson?_toJson
  · exact fun s => s.keeps.readsBack s.ofJson?_toJson
  · exact fun s => s.keeps.readsBack rfl
  · exact fun s => s.keeps.readsBack rfl
  · exact fun s => s.keeps.readsBack s.ofJson?_toJson
  · exact fun s => ⟨s.asWritten.keeps.readsBack s.ofJson?_toJson, s.asWritten_eq_self_iff⟩

/-- A trigger that is due in a leap second of the year -1. -/
def dueInLeapSecond : Trigger where
  key := ⟨"sync", "hourly"⟩
  job := ⟨"sync", "pull"⟩
  timing := .every 3600000
  previous := none
  next := some ⟨-719529, 86399, 1500000000, by decide, by decide, by decide, by decide⟩

def dueInLeapSecondMembers : List (String × Json) :=
  [("key", .object [("group", .text "sync"), ("name", .text "hourly")]),
    ("job_key", .object [("group", .text "sync"), ("name", .text "pull")]),
    ("kind", .object [("expression", .text "* * * * * *"), ("type", .text "fixed_interval"),
      ("interval_ms", .int 3600000)]),
    ("next_fire_time", .text "-0001-12-31T23:59:60.500Z")]

theorem changed_form_reads_back :
    Relation.ReflTransGen (Change dueInLeapSecond.layout) dueInLeapSecond.toJson
      (.object (("pid", .text "99") :: dueInLeapSecondMembers).reverse) ∧
    (∀ i ∈ dueInLeapSecond.next, i.EndsMinute) ∧
    Trigger.ofJson? (.object (("pid", .text "99") :: dueInLeapSecondMembers).reverse) =
      some dueInLeapSecond := by
  have htext : Instant.text ⟨-719529, 86399, 1500000000, by decide, by decide, by decide,
      by decide⟩ = "-0001-12-31T23:59:60.500Z" := by decide +kernel
  have hform : dueInLeapSecond.toJson =
      .object ([("key", dueInLeapSecond.key.toJson), ("job_key", dueInLeapSecond.job.toJson)] ++
        ("kind", dueInLeapSecond.timing.toJson) ::
          [("next_fire_time", .text "-0001-12-31T23:59:60.500Z")]) := by
    rw [← htext]
    rfl
  have htiming : Change dueInLeapSecond.timing.layout dueInLeapSecond.timing.toJson
      (.object [("expression", .text "* * * * * *"), ("type", .text "fixed_interval"),
        ("interval_ms", .int 3600000)]) :=
    .added "* * * * * *" (by decide)
  have hinside : Change dueInLeapSecond.layout dueInLeapSecond.toJson
      (.object dueInLeapSecondMembers) := by
    rw [hform]
    exact .inside (by simp) htiming
  have hadded : Change dueInLeapSecond.layout (.object dueInLeapSecondMembers)
      (.object (("pid", .text "99") :: dueInLeapSecondMembers)) :=
    .added "99" (by decide)
  have hreordered : Change dueInLeapSecond.layout
      (.object (("pid", .text "99") :: dueInLeapSecondMembers))
      (.object (("pid", .text "99") :: dueInLeapSecondMembers).reverse) :=
    .reordered (List.reverse_perm _).symm
  have hchanges : Relation.ReflTransGen (Change dueInLeapSecond.layout) dueInLeapSecond.toJson
      (.object (("pid", .text "99") :: dueInLeapSecondMembers).reverse) :=
    .tail (.tail (.single hinside) hadded) hreordered
  have hnext : ∀ i ∈ dueInLeapSecond.next, i.EndsMinute := by
    rintro _ ⟨⟩ -
    rfl
  obtain ⟨-, -, -, htriggers, -⟩ := forms_read_back
  obtain ⟨hreads, hsame⟩ := htriggers dueInLeapSecond
  have hread := hreads.2 _ hchanges
  rw [hsame.mpr ⟨by simp [dueInLeapSecond], hnext⟩] at hread
  exact ⟨hchanges, hnext, hread⟩

def insideMinute : Instant := ⟨19723, 0, 1500000000, by decide, by decide, by decide, by decide⟩

/-- An execution that started inside a minute's leap second is read back with another start, from
which less time has passed three seconds into the minute. -/
theorem inside_minute_not_read_back :
    let e : Execution := ⟨⟨⟨"sync", "pull"⟩, none, "app.Pull"⟩, insideMinute⟩
    let now : Instant := ⟨19723, 3, 0, by decide, by decide, by decide, by decide⟩
    insideMinute.text = "2024-01-01T00:00:01.500Z" ∧ Execution.ofJson? e.toJson ≠ some e ∧
    (Execution.ofJson? e.toJson).map (now.millisSince ·.started) = some 1500 ∧
    now.millisSince insideMinute = 2500 := by
  intro e now
  have hread : Execution.ofJson? e.toJson = some e.asWritten := e.ofJson?_toJson
  have hother : e.asWritten ≠ e := by decide +kernel
  rw [hread]
  exact ⟨by decide +kernel, by simpa using hother, by decide +kernel, by decide +kernel⟩

end JobWatch
