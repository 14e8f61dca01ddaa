import JobWatch.Proofs.Cron.Clock
import JobWatch.Proofs.Cron.Schedule
import Mathlib.Data.List.Basic
import Mathlib.Data.Option.Basic

/-!
# The search and the order of readings

The search asks the readings that a schedule lists one after the other, from the earliest on, and
comes to the answer of the first one that has an answer. Every level of it does so for the readings
below it, if the numbers of its field ascend.
-/

set_option autoImplicit false

namespace JobWatch.Cron

open Calendar

/-- What a search comes to: the answer of the first candidate that has one. -/
structure Settles (candidates : Clock → Prop) (answer : Clock → Hit) (hit : Hit) : Prop where
  of_nothing : hit = .nothing → ∀ c, candidates c → answer c = .nothing
  of_hit : hit ≠ .nothing →
    ∃ c, candidates c ∧ answer c = hit ∧ ∀ d, candidates d → d.Before c → answer d = .nothing

def NotBefore (bound : Option Clock) (c : Clock) : Prop := ∀ q ∈ bound, ¬ c.Before q

section OneField

variable {C D : Clock → Prop} {answer : Clock → Hit} {hit : Hit}

theorem Settles.congr (h : Settles C answer hit) (hiff : ∀ c, C c ↔ D c) :
    Settles D answer hit := by
  have heq : C = D := funext fun c => propext (hiff c)
  exact heq ▸ h

theorem settles_empty (hnone : ∀ c, ¬ C c) : Settles C answer .nothing :=
  ⟨fun _ c hc => absurd hc (hnone c), fun h => absurd rfl h⟩

theorem settles_only {c : Clock} (honly : ∀ d, C d ↔ d = c) : Settles C answer (answer c) := by
  refine ⟨?_, fun _ => ⟨c, (honly c).mpr rfl, rfl, ?_⟩⟩
  · intro hnothing d hd
    rw [(honly d).mp hd, hnothing]
  · intro d hd hbefore
    rw [(honly d).mp hd] at hbefore
    exact absurd hbefore (Clock.before_irrefl c)

variable {field : Clock → Nat} {search : Option Clock → Nat → Hit}

theorem settles_cons {bound : Option Clock} {n : Nat} {rest : List Nat}
    (hfirst : Settles C answer (search bound n))
    (hrest : Settles D answer (firstHit search none rest))
    (horder : ∀ c d, C c → D d → c.Before d) :
    Settles (fun c => C c ∨ D c) answer (firstHit search bound (n :: rest)) := by
  by_cases hnothing : search bound n = .nothing
  · have hnext : firstHit search bound (n :: rest) = firstHit search none rest := by
      rw [firstHit, hnothing]
    rw [hnext]
    have hsilent := hfirst.of_nothing hnothing
    refine ⟨?_, ?_⟩
    · rintro hrestNothing c (hc | hc)
      · exact hsilent c hc
      · exact hrest.of_nothing hrestNothing c hc
    · intro hrestHit
      obtain ⟨c, hc, hanswer, hbefore⟩ := hrest.of_hit hrestHit
      refine ⟨c, .inr hc, hanswer, ?_⟩
      rintro d (hd | hd) hdc
      · exact hsilent d hd
      · exact hbefore d hd hdc
  · have hhit : firstHit search bound (n :: rest) = search bound n := by
      rw [firstHit]
      split
      next h => exact absurd h hnothing
      next => rfl
    rw [hhit]
    refine ⟨fun h => absurd h hnothing, fun _ => ?_⟩
    obtain ⟨c, hc, hanswer, hbefore⟩ := hfirst.of_hit hnothing
    refine ⟨c, .inl hc, hanswer, ?_⟩
    rintro d (hd | hd) hdc
    · exact hbefore d hd hdc
    · exact absurd hdc (horder c d hc hd).asymm

theorem settles_firstHit {numbers : List Nat} (hsorted : numbers.Pairwise (· < ·))
    (horder : ∀ c d, C c → C d → field c < field d → c.Before d)
    (hchild : ∀ n ∈ numbers, Settles (fun c => C c ∧ field c = n) answer (search none n)) :
    Settles (fun c => C c ∧ field c ∈ numbers) answer (firstHit search none numbers) := by
  induction numbers with
  | nil => exact settles_empty (by simp)
  | cons n rest ih =>
    obtain ⟨hless, hrest⟩ := List.pairwise_cons.mp hsorted
    have hfirst := hchild n List.mem_cons_self
    have hlater := ih hrest fun m hm => hchild m (List.mem_cons_of_mem _ hm)
    refine (settles_cons hfirst hlater ?_).congr ?_
    · rintro c d ⟨hc, hcn⟩ ⟨hd, hdn⟩
      exact horder c d hc hd (hcn ▸ hless _ hdn)
    · intro c
      rw [List.mem_cons, and_or_left]

theorem filter_from_eq_cons {numbers : List Nat} (hsorted : numbers.Pairwise (· < ·)) {k last : Nat}
    (hk : k ∈ numbers) (hlast : k ≤ last) :
    numbers.filter (fun n => k ≤ n && n ≤ last) =
      k :: numbers.filter fun n => k < n && n ≤ last := by
  induction numbers with
  | nil => simp at hk
  | cons n rest ih =>
    obtain ⟨hless, hrest⟩ := List.pairwise_cons.mp hsorted
    rcases List.mem_cons.mp hk with rfl | hmem
    · have hsame : rest.filter (fun m => k ≤ m && m ≤ last) =
          rest.filter fun m => k < m && m ≤ last := by
        apply List.filter_congr
        intro m hm
        have hlt := hless m hm
        simp [hlt, Nat.le_of_lt hlt]
      simp [hlast, hsame]
    · have hlt := hless k hmem
      simp [Nat.not_le.mpr hlt, Nat.not_lt.mpr (Nat.le_of_lt hlt), ih hrest hmem]

/-- One field of the search: its numbers, the greatest one that there is, and the candidates `T`
among the readings `P` that agree in the fields above it. -/
structure Level (T P : Clock → Prop) (numbers : List Nat) (last : Nat) (field : Clock → Nat) :
    Prop where
  real : ∀ c, T c → c.IsReal
  ascending : numbers.Pairwise (· < ·)
  order : ∀ c d, P c → P d → field c < field d → c.Before d
  le_last : ∀ c, c.IsReal → P c → field c ≤ last
  listed : ∀ c, T c → field c ∈ numbers

variable {T P : Clock → Prop} {numbers : List Nat} {last : Nat} {q : Clock}

theorem Level.notBefore_of_lt (h : Level T P numbers last field) (hq : P q) {c : Clock} (hc : P c)
    (hlt : field q < field c) : NotBefore (some q) c := by
  rintro _ ⟨⟩
  exact (h.order q c hq hc hlt).asymm

theorem Level.mem_from (h : Level T P numbers last field) (hq : P q) {c : Clock} (hT : T c)
    (hP : P c) (hnot : NotBefore (some q) c) :
    field c ∈ numbers.filter fun n => field q ≤ n && n ≤ last := by
  have hge : field q ≤ field c := by
    by_contra hless
    exact hnot q rfl (h.order c q hP hq (by omega))
  simp [h.listed c hT, h.le_last c (h.real c hT) hP, hge]

def SettlesBelow (T P : Clock → Prop) (numbers : List Nat) (last : Nat) (field : Clock → Nat)
    (answer : Clock → Hit) (search : Option Clock → Nat → Hit) : Prop :=
  ∀ n ∈ numbers, n ≤ last → ∀ bound : Option Clock,
    (∀ q ∈ bound, q.IsReal ∧ P q ∧ field q = n) →
      Settles (fun c => (T c ∧ P c ∧ field c = n) ∧ NotBefore bound c) answer (search bound n)

/-- Without a bound the numbers of a range are tried one after the other. -/
theorem Level.settles_range (h : Level T P numbers last field)
    (hbelow : SettlesBelow T P numbers last field answer search) {inRange : Nat → Bool}
    (hrange : ∀ n, inRange n = true → n ≤ last) :
    Settles (fun c => (T c ∧ P c) ∧ field c ∈ numbers.filter inRange) answer
      (firstHit search none (numbers.filter inRange)) := by
  refine settles_firstHit (h.ascending.filter _) (fun c d hc hd => h.order c d hc.2 hd.2) ?_
  intro n hn
  obtain ⟨hmem, hin⟩ := List.mem_filter.mp hn
  refine (hbelow n hmem (hrange n hin) none (by simp)).congr ?_
  intro c
  simp [NotBefore, and_assoc]

/-- The number of the bound is tried with the bound, and the greater ones without it. -/
theorem Level.settles_from_listed (h : Level T P numbers last field)
    (hbelow : SettlesBelow T P numbers last field answer search) (hreal : q.IsReal) (hq : P q)
    (hmem : field q ∈ numbers) :
    Settles (fun c => (T c ∧ P c) ∧ NotBefore (some q) c) answer
      (firstHit search (some q) (numbers.filter fun n => field q ≤ n && n ≤ last)) := by
  have hle := h.le_last q hreal hq
  have hfirst := hbelow (field q) hmem hle (some q) fun _ hr => by
    cases hr
    exact ⟨hreal, hq, rfl⟩
  have hrest : Settles (fun c => (T c ∧ P c) ∧
      field c ∈ numbers.filter fun n => field q < n && n ≤ last) answer _ :=
    h.settles_range hbelow (by simp)
  simp only [List.mem_filter, Bool.and_eq_true, decide_eq_true_eq] at hrest
  rw [filter_from_eq_cons h.ascending hmem hle]
  refine (settles_cons hfirst hrest ?_).congr ?_
  · rintro c d ⟨⟨-, hP, hc⟩, -⟩ ⟨⟨-, hPd⟩, -, hd, -⟩
    exact h.order c d hP hPd (hc ▸ hd)
  · intro c
    constructor
    · rintro (⟨⟨hT, hP, -⟩, hnot⟩ | ⟨⟨hT, hP⟩, -, hlater, -⟩)
      · exact ⟨⟨hT, hP⟩, hnot⟩
      · exact ⟨⟨hT, hP⟩, h.notBefore_of_lt hq hP hlater⟩
    · rintro ⟨⟨hT, hP⟩, hnot⟩
      have hin := h.mem_from hq hT hP hnot
      rw [filter_from_eq_cons h.ascending hmem hle, List.mem_cons] at hin
      rcases hin with hsame | hlater
      · exact .inl ⟨⟨hT, hP, hsame⟩, hnot⟩
      · exact .inr ⟨⟨hT, hP⟩, by simpa using hlater⟩

theorem Level.settles_from_unlisted (h : Level T P numbers last field)
    (hbelow : SettlesBelow T P numbers last field answer search) (hq : P q)
    (hmem : field q ∉ numbers) :
    Settles (fun c => (T c ∧ P c) ∧ NotBefore (some q) c) answer
      (firstHit search none (numbers.filter fun n => field q ≤ n && n ≤ last)) := by
  refine (h.settles_range hbelow (by simp)).congr ?_
  intro c
  constructor
  · rintro ⟨⟨hT, hP⟩, hin⟩
    simp only [List.mem_filter, Bool.and_eq_true, decide_eq_true_eq] at hin
    have hne : field q ≠ field c := fun h => hmem (h ▸ hin.1)
    exact ⟨⟨hT, hP⟩, h.notBefore_of_lt hq hP (by omega)⟩
  · rintro ⟨⟨hT, hP⟩, hnot⟩
    exact ⟨⟨hT, hP⟩, h.mem_from hq hT hP hnot⟩

theorem Level.settles_searchField (h : Level T P numbers last field)
    (hbelow : SettlesBelow T P numbers last field answer search) {bound : Option Clock}
    (hbound : ∀ q ∈ bound, q.IsReal ∧ P q) :
    Settles (fun c => (T c ∧ P c) ∧ NotBefore bound c) answer
      (searchField numbers last field search bound) := by
  cases bound with
  | none =>
    refine (h.settles_range hbelow (by simp)).congr ?_
    intro c
    simp only [NotBefore, Option.not_mem_none, false_implies, implies_true, and_true,
      and_iff_left_iff_imp, List.mem_filter, decide_eq_true_eq]
    exact fun hc => ⟨h.listed c hc.1, h.le_last c (h.real c hc.1) hc.2⟩
  | some q =>
    obtain ⟨hreal, hq⟩ := hbound q rfl
    rw [searchField, Nat.min_eq_left (h.le_last q hreal hq)]
    by_cases hmem : field q ∈ numbers
    · rw [if_pos (by simpa using hmem)]
      exact h.settles_from_listed hbelow hreal hq hmem
    · rw [if_neg (by simpa using hmem)]
      exact h.settles_from_unlisted hbelow hq hmem

end OneField

/-- A reading of the calendar whose parts a schedule lists, whatever its day of the week. -/
structure Schedule.Tries (s : Schedule) (c : Clock) : Prop where
  date : (Date.mk c.year c.month c.day).isValid = true
  positive : 0 ≤ c.year
  year : c.year.toNat ∈ s.years
  month : c.month ∈ s.months
  day : c.day ∈ s.daysOfMonth
  hour : c.hour ∈ s.hours
  minute : c.minute ∈ s.minutes
  second : c.second ∈ s.seconds

theorem Schedule.Tries.isReal {s : Schedule} (hs : s.Orderly) {c : Clock} (h : s.Tries c) :
    c.IsReal :=
  ⟨h.date, (Field.bounds hs.hours h.hour).2, (Field.bounds hs.minutes h.minute).2,
    (Field.bounds hs.seconds h.second).2⟩

inductive Part where
  | month
  | day
  | hour
  | minute
  | second

namespace Part

def of : Part → Clock → Nat
  | month => Clock.month
  | day => Clock.day
  | hour => Clock.hour
  | minute => Clock.minute
  | second => Clock.second

def numbers (s : Schedule) : Part → List Nat
  | month => s.months
  | day => s.daysOfMonth
  | hour => s.hours
  | minute => s.minutes
  | second => s.seconds

def last (q : Clock) : Part → Nat
  | month => 12
  | day => daysInMonth q.year q.month
  | hour => 23
  | minute => 59
  | second => 59

def AgreesAbove (q c : Clock) : Part → Prop
  | month => c.year = q.year
  | day => c.year = q.year ∧ c.month = q.month
  | hour => (c.year = q.year ∧ c.month = q.month) ∧ c.day = q.day
  | minute => ((c.year = q.year ∧ c.month = q.month) ∧ c.day = q.day) ∧ c.hour = q.hour
  | second =>
    (((c.year = q.year ∧ c.month = q.month) ∧ c.day = q.day) ∧ c.hour = q.hour) ∧
      c.minute = q.minute

theorem numbers_ascending {s : Schedule} (hs : s.Orderly) (part : Part) :
    (part.numbers s).Pairwise (· < ·) := by
  cases part with
  | month => exact Field.ascending hs.months
  | day => exact Field.ascending hs.daysOfMonth
  | hour => exact Field.ascending hs.hours
  | minute => exact Field.ascending hs.minutes
  | second => exact Field.ascending hs.seconds

theorem of_mem_numbers {s : Schedule} {c : Clock} (hc : s.Tries c) (part : Part) :
    part.of c ∈ part.numbers s := by
  cases part with
  | month => exact hc.month
  | day => exact hc.day
  | hour => exact hc.hour
  | minute => exact hc.minute
  | second => exact hc.second

theorem of_le_last {q c : Clock} (hc : c.IsReal) {part : Part} (hagrees : AgreesAbove q c part) :
    part.of c ≤ part.last q := by
  have hdate := (Date.isValid_iff _).mp hc.date
  cases part with
  | month => exact hdate.1.2
  | day =>
    obtain ⟨hyear, hmonth⟩ : c.year = q.year ∧ c.month = q.month := hagrees
    rw [last, ← hyear, ← hmonth]
    exact hdate.2.2
  | hour => exact hc.hour
  | minute => exact hc.minute
  | second => exact hc.second

theorem before_of_lt {q c d : Clock} {part : Part} (hc : AgreesAbove q c part)
    (hd : AgreesAbove q d part) (hlt : part.of c < part.of d) : c.Before d := by
  cases part
  all_goals
    simp only [AgreesAbove, of] at hc hd hlt
    unfold Clock.Before
    omega

theorem level {s : Schedule} (hs : s.Orderly) (q : Clock) (part : Part) :
    Level s.Tries (AgreesAbove q · part) (part.numbers s) (part.last q) part.of :=
  { real := fun _ hc => hc.isReal hs
    ascending := part.numbers_ascending hs
    order := fun _ _ => before_of_lt
    le_last := fun _ hc => of_le_last hc
    listed := fun _ hc => of_mem_numbers hc part }

end Part

def Schedule.answer (s : Schedule) (z : Zone) (c : Clock) : Hit :=
  match tryTime s z c with
  | .wrongWeekday => .nothing
  | hit => hit

section Levels

def searchMinute (s : Schedule) (z : Zone) (year month day hour : Nat) (bound : Option Clock)
    (minute : Nat) : Hit :=
  searchField s.seconds 59 Clock.second
    (fun _ second => tryTime s z ⟨year, month, day, hour, minute, second⟩) bound

def searchHour (s : Schedule) (z : Zone) (year month day : Nat) (bound : Option Clock)
    (hour : Nat) : Hit :=
  searchField s.minutes 59 Clock.minute (searchMinute s z year month day hour) bound

def searchTimes (s : Schedule) (z : Zone) (year month day : Nat) (bound : Option Clock) : Hit :=
  searchField s.hours 23 Clock.hour (searchHour s z year month day) bound

theorem searchDay_eq (s : Schedule) (z : Zone) (year month : Nat) (bound : Option Clock)
    (day : Nat) :
    searchDay s z year month bound day =
      if searchTimes s z year month day bound = .wrongWeekday then .nothing
      else searchTimes s z year month day bound := rfl

theorem Schedule.answer_of_wrongWeekday {s : Schedule} {z : Zone} {c d : Clock}
    (h : tryTime s z c = .wrongWeekday) (hday : d.localDay = c.localDay) :
    s.answer z d = .nothing := by
  have hwrong : z.hasDate c.localDay = true ∧ ¬ s.daysOfWeek.contains (weekday c.localDay) = true := by
    simp only [tryTime] at h
    grind
  have htry : tryTime s z d = .nothing ∨ tryTime s z d = .wrongWeekday := by
    rw [tryTime, hday, if_pos hwrong.1]
    split
    · exact .inr (if_neg hwrong.2)
    · exact .inl rfl
  unfold Schedule.answer
  rcases htry with htry | htry <;> rw [htry]

variable {s : Schedule} (hs : s.Orderly) (z : Zone) {year month day hour minute : Nat}
  {bound : Option Clock}

include hs

theorem settles_searchMinute
    (htries : ∀ second ∈ s.seconds, s.Tries ⟨year, month, day, hour, minute, second⟩)
    (hbound : ∀ q ∈ bound, q.IsReal ∧
      (((q.year = year ∧ q.month = month) ∧ q.day = day) ∧ q.hour = hour) ∧ q.minute = minute) :
    Settles (fun c => (s.Tries c ∧ (((c.year = year ∧ c.month = month) ∧ c.day = day) ∧
        c.hour = hour) ∧ c.minute = minute) ∧ NotBefore bound c) (tryTime s z)
      (searchMinute s z year month day hour bound minute) := by
  refine (Part.level hs ⟨year, month, day, hour, minute, 0⟩ .second).settles_searchField ?_ hbound
  intro second hsecond _ below hbelow
  refine settles_only ?_
  rintro ⟨y, m, d, h, mi, n⟩
  constructor
  · rintro ⟨⟨-, hP, hn⟩, -⟩
    simp only [Part.AgreesAbove, Part.of] at hP hn
    simp [hP, hn]
  · intro heq
    rw [heq]
    refine ⟨⟨htries second hsecond, by simp [Part.AgreesAbove, Part.of]⟩, ?_⟩
    intro q hq
    have hsame := (hbelow q hq).2
    simp only [Part.AgreesAbove, Part.of] at hsame
    unfold Clock.Before
    simp only
    omega

theorem settles_searchHour
    (htries : ∀ minute ∈ s.minutes, ∀ second ∈ s.seconds,
      s.Tries ⟨year, month, day, hour, minute, second⟩)
    (hbound : ∀ q ∈ bound, q.IsReal ∧
      ((q.year = year ∧ q.month = month) ∧ q.day = day) ∧ q.hour = hour) :
    Settles (fun c => (s.Tries c ∧ ((c.year = year ∧ c.month = month) ∧ c.day = day) ∧
        c.hour = hour) ∧ NotBefore bound c) (tryTime s z)
      (searchHour s z year month day bound hour) :=
  (Part.level hs ⟨year, month, day, hour, 0, 0⟩ .minute).settles_searchField
    (fun minute hminute _ _ hbelow =>
      settles_searchMinute hs z (htries minute hminute) hbelow) hbound

theorem settles_searchTimes
    (htries : ∀ hour ∈ s.hours, ∀ minute ∈ s.minutes, ∀ second ∈ s.seconds,
      s.Tries ⟨year, month, day, hour, minute, second⟩)
    (hbound : ∀ q ∈ bound, q.IsReal ∧ (q.year = year ∧ q.month = month) ∧ q.day = day) :
    Settles (fun c => (s.Tries c ∧ (c.year = year ∧ c.month = month) ∧ c.day = day) ∧
        NotBefore bound c) (tryTime s z) (searchTimes s z year month day bound) :=
  (Part.level hs ⟨year, month, day, 0, 0, 0⟩ .hour).settles_searchField
    (fun hour hhour _ _ hbelow => settles_searchHour hs z (htries hour hhour) hbelow) hbound

theorem settles_searchDay (hyear : year ∈ s.years) (hmonth : month ∈ s.months)
    (hday : day ∈ s.daysOfMonth) (hdate : (Date.mk year month day).isValid = true)
    (hbound : ∀ q ∈ bound, q.IsReal ∧ (q.year = year ∧ q.month = month) ∧ q.day = day) :
    Settles (fun c => (s.Tries c ∧ (c.year = year ∧ c.month = month) ∧ c.day = day) ∧
        NotBefore bound c) (s.answer z) (searchDay s z year month bound day) := by
  have htimes := settles_searchTimes hs z (fun hour hhour minute hminute second hsecond =>
    ⟨hdate, by simp, by simpa using hyear, hmonth, hday, hhour, hminute, hsecond⟩) hbound
  rw [searchDay_eq]
  split
  next hwrong =>
    -- The search gives the day up at its first time, but no time of the day has another answer.
    obtain ⟨c, ⟨⟨-, hc⟩, -⟩, hanswer, -⟩ := htimes.of_hit (by simp [hwrong])
    rw [hwrong] at hanswer
    refine ⟨?_, fun h => absurd rfl h⟩
    rintro - d ⟨⟨-, hd⟩, -⟩
    refine Schedule.answer_of_wrongWeekday hanswer ?_
    simp only [Clock.localDay, hc, hd]
  next hright =>
    have hnothing : ∀ d, tryTime s z d = .nothing → s.answer z d = .nothing := by
      intro d h
      rw [Schedule.answer, h]
    refine ⟨fun h d hd => hnothing d (htimes.of_nothing h d hd), ?_⟩
    intro hhit
    obtain ⟨c, hc, hanswer, hbefore⟩ := htimes.of_hit hhit
    refine ⟨c, hc, ?_, fun d hd hdc => hnothing d (hbefore d hd hdc)⟩
    rw [Schedule.answer, hanswer]
    split
    next h => exact absurd h hright
    next => rfl

theorem settles_searchMonth (hyear : year ∈ s.years) (hmonth : month ∈ s.months)
    (hbound : ∀ q ∈ bound, q.IsReal ∧ q.year = year ∧ q.month = month) :
    Settles (fun c => (s.Tries c ∧ c.year = year ∧ c.month = month) ∧ NotBefore bound c)
      (s.answer z) (searchMonth s z year bound month) := by
  refine (Part.level hs ⟨year, month, 0, 0, 0, 0⟩ .day).settles_searchField ?_ hbound
  intro day hday hle below hbelow
  have hmonths := Field.bounds hs.months hmonth
  have hdays := Field.bounds hs.daysOfMonth hday
  exact settles_searchDay hs z hyear hmonth hday
    ((Date.isValid_iff _).mpr ⟨hmonths, hdays.1, hle⟩) hbelow

theorem settles_searchYear (hyear : year ∈ s.years)
    (hbound : ∀ q ∈ bound, q.IsReal ∧ q.year = year) :
    Settles (fun c => (s.Tries c ∧ c.year = year) ∧ NotBefore bound c) (s.answer z)
      (searchYear s z bound year) :=
  (Part.level hs ⟨year, 0, 0, 0, 0, 0⟩ .month).settles_searchField
    (fun _ hmonth _ _ hbelow => settles_searchMonth hs z hyear hmonth hbelow) hbound

end Levels

end JobWatch.Cron
