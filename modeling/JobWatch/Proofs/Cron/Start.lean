import JobWatch.Proofs.Cron.Search
import Mathlib.Tactic.ByContra

/-!
# Where the search of a later year begins

The bound comes from the reading after the reference, but it is applied to the first year that is
tried. If this is a later one, the search begins there at the month, the day and the time of the
bound and not with the year, or at the last day of that month if the bound is beyond it.
-/

set_option autoImplicit false

namespace JobWatch.Cron

open Calendar

section Bounds

variable {search : Option Clock → Nat → Hit} {numbers : List Nat} {last : Nat}
  {field : Clock → Nat} {q e : Clock}

theorem firstHit_cons_congr {bound bound' : Option Clock} {n : Nat} (rest : List Nat)
    (hsearch : search bound n = search bound' n) :
    firstHit search bound (n :: rest) = firstHit search bound' (n :: rest) := by
  rw [firstHit, firstHit, hsearch]

theorem firstHit_congr {bound bound' : Option Clock} (ns : List Nat)
    (hsearch : ∀ n, search bound n = search bound' n) :
    firstHit search bound ns = firstHit search bound' ns := by
  cases ns with
  | nil => rfl
  | cons n rest => exact firstHit_cons_congr rest (hsearch n)

theorem searchField_congr (hfield : field q = field e)
    (hsearch : ∀ n, search (some q) n = search (some e) n) :
    searchField numbers last field search (some q) =
      searchField numbers last field search (some e) := by
  rw [searchField, searchField, hfield]
  split
  · exact firstHit_congr _ hsearch
  · rfl

theorem searchField_zero (hfield : field e = 0)
    (hsearch : ∀ n, search (some e) n = search none n) :
    searchField numbers last field search (some e) =
      searchField numbers last field search none := by
  rw [searchField, searchField, hfield]
  have hsame : (numbers.filter fun n => min 0 last ≤ n && n ≤ last) = numbers.filter (· ≤ last) := by
    simp
  rw [hsame]
  split
  · exact firstHit_congr _ hsearch
  · rfl

variable (s : Schedule) (z : Zone) (year month day : Nat)

theorem searchTimes_congr (hhour : q.hour = e.hour) (hminute : q.minute = e.minute)
    (hsecond : q.second = e.second) :
    searchTimes s z year month day (some q) = searchTimes s z year month day (some e) :=
  searchField_congr hhour fun _ => searchField_congr hminute fun _ =>
    searchField_congr hsecond fun _ => rfl

theorem searchTimes_midnight (hhour : e.hour = 0) (hminute : e.minute = 0)
    (hsecond : e.second = 0) :
    searchTimes s z year month day (some e) = searchTimes s z year month day none :=
  searchField_zero hhour fun _ => searchField_zero hminute fun _ =>
    searchField_zero hsecond fun _ => rfl

end Bounds

def Schedule.entry (s : Schedule) (year : Nat) (q : Clock) : Clock :=
  let last := daysInMonth year q.month
  if q.day ≤ last ∨ q.day ∈ s.daysOfMonth then { q with year, day := min q.day last }
  else ⟨year, q.month, last, 0, 0, 0⟩

/-- Where the search begins: in the first year from that of the bound on. -/
def Schedule.start (s : Schedule) (q : Clock) : Clock :=
  match s.years.find? (q.year.toNat ≤ ·) with
  | some year => s.entry year q
  | none => q

variable {s : Schedule} (z : Zone) {q : Clock}

@[simp] theorem Schedule.entry_year (year : Nat) : (s.entry year q).year = year := by
  simp only [Schedule.entry]
  split <;> rfl

@[simp] theorem Schedule.entry_month (year : Nat) : (s.entry year q).month = q.month := by
  simp only [Schedule.entry]
  split <;> rfl

theorem one_le_daysInMonth (year : Int) {month : Nat} (h : 1 ≤ month ∧ month ≤ 12) :
    1 ≤ daysInMonth year month := by
  have all : ∀ leap, ∀ m ∈ List.range' 1 12, 1 ≤ (monthLengths leap)[m - 1]?.getD 0 := by decide
  exact all _ month (List.mem_range'_1.mpr (by omega))

theorem Schedule.isReal_entry (hq : q.IsReal) (year : Nat) : (s.entry year q).IsReal := by
  obtain ⟨hdate, hhour, hminute, hsecond⟩ := hq
  obtain ⟨hmonth, hday, -⟩ := (Date.isValid_iff _).mp hdate
  have hlast := one_le_daysInMonth year hmonth
  simp only [Schedule.entry]
  split
  · exact ⟨(Date.isValid_iff _).mpr ⟨hmonth, Nat.le_min.mpr ⟨hday, hlast⟩, Nat.min_le_right _ _⟩,
      hhour, hminute, hsecond⟩
  · exact ⟨(Date.isValid_iff _).mpr ⟨hmonth, hlast, Nat.le_refl _⟩, by simp, by simp, by simp⟩

theorem Schedule.entry_own_year (hq : q.IsReal) (hyear : 0 ≤ q.year) :
    s.entry q.year.toNat q = q := by
  have hday : q.day ≤ daysInMonth q.year q.month := ((Date.isValid_iff _).mp hq.date).2.2
  simp only [Schedule.entry, Int.toNat_of_nonneg hyear]
  rw [if_pos (.inl hday), Nat.min_eq_left hday]

theorem Schedule.isReal_start (hq : q.IsReal) : (s.start q).IsReal := by
  unfold Schedule.start
  split
  · exact Schedule.isReal_entry hq _
  · exact hq

/-- If the schedule has the year of the bound, or no later one, the search begins at the bound. -/
theorem Schedule.start_eq_self (hs : s.Orderly) (hq : q.IsReal) (hyear : 0 ≤ q.year)
    (hown : ∀ year ∈ s.years, q.year.toNat ≤ year → q.year.toNat ∈ s.years) : s.start q = q := by
  unfold Schedule.start
  split
  next year hfound =>
    obtain ⟨hle, earlier, later, hyears, hless⟩ := List.find?_eq_some_iff_append.mp hfound
    simp only [decide_eq_true_eq] at hle
    have hmem : year ∈ s.years := by simp [hyears]
    have hlisted := hown year hmem hle
    have hsorted := Field.ascending hs.years
    rw [hyears] at hlisted hsorted
    obtain ⟨-, htail, -⟩ := List.pairwise_append.mp hsorted
    rcases List.mem_append.mp hlisted with hearlier | hlisted
    · simpa using hless _ hearlier
    · rcases List.mem_cons.mp hlisted with hsame | hlater
      · rw [← hsame, Schedule.entry_own_year hq hyear]
      · have hlt := (List.pairwise_cons.mp htail).1 _ hlater
        omega
  next => rfl

theorem Schedule.toLocal_le_start (hq : q.IsReal) (hyear : 0 ≤ q.year) :
    q.toLocal ≤ (s.start q).toLocal := by
  unfold Schedule.start
  split
  next year hfound =>
    have hle : q.year.toNat ≤ year := by simpa using List.find?_some hfound
    by_cases hown : year = q.year.toNat
    · have hsame : s.entry year q = q := hown ▸ Schedule.entry_own_year hq hyear
      exact Int.le_of_eq (congrArg Clock.toLocal hsame.symm)
    · have hlater : q.Before (s.entry year q) := .inl (by rw [Schedule.entry_year]; omega)
      exact Int.le_of_lt (Clock.toLocal_lt_of_before hq (Schedule.isReal_entry hq year) hlater)
  next => exact Int.le_refl _

theorem searchDay_congr {bound bound' : Option Clock} {year month day : Nat}
    (h : searchTimes s z year month day bound = searchTimes s z year month day bound') :
    searchDay s z year month bound day = searchDay s z year month bound' day := by
  rw [searchDay_eq, searchDay_eq, h]

/-- In the month of the bound. Its day may be beyond the end of the month in another year; then only
the last day is tried, and the time of the bound holds there if the schedule lists its day. -/
theorem searchMonth_entry (year : Nat) :
    searchMonth s z year (some q) q.month =
      searchMonth s z year (some (s.entry year q)) q.month := by
  by_cases hkept : q.day ≤ daysInMonth year q.month ∨ q.day ∈ s.daysOfMonth
  · have hentry : s.entry year q = { q with year, day := min q.day (daysInMonth year q.month) } :=
      if_pos hkept
    have hsame : ∀ day, searchDay s z year q.month (some q) day =
        searchDay s z year q.month (some (s.entry year q)) day := fun day =>
      searchDay_congr z (searchTimes_congr s z year q.month day (by rw [hentry]) (by rw [hentry])
        (by rw [hentry]))
    -- Only beyond the end of the month does the day of the bound differ from that of the start.
    by_cases hin : q.day ≤ daysInMonth year q.month
    · exact searchField_congr (by rw [hentry]; exact (Nat.min_eq_left hin).symm) hsame
    · have hday : q.day ∈ s.daysOfMonth := hkept.resolve_left hin
      have hlast : min q.day (daysInMonth year q.month) = daysInMonth year q.month := by omega
      rw [hlast] at hentry
      by_cases hlisted : daysInMonth year q.month ∈ s.daysOfMonth
      · simp only [searchMonth, searchField, hentry, hlast, Nat.min_self]
        rw [if_pos (by simpa using hday), if_pos (by simpa using hlisted)]
        exact firstHit_congr _ (hentry ▸ hsame)
      · have hempty : (s.daysOfMonth.filter fun n =>
            daysInMonth year q.month ≤ n && n ≤ daysInMonth year q.month) = [] := by
          rw [List.filter_eq_nil_iff]
          intro n hn
          have hne : n ≠ daysInMonth year q.month := fun h => hlisted (h ▸ hn)
          simp only [Bool.and_eq_true, decide_eq_true_eq]
          omega
        simp only [searchMonth, searchField, hentry, hlast, Nat.min_self, hempty, firstHit]
  · have hentry : s.entry year q = ⟨year, q.month, daysInMonth year q.month, 0, 0, 0⟩ :=
      if_neg hkept
    rw [not_or] at hkept
    have hlast : min q.day (daysInMonth year q.month) = daysInMonth year q.month := by omega
    simp only [searchMonth, searchField, hentry, hlast, Nat.min_self]
    rw [if_neg (by simpa using hkept.2)]
    split
    · exact firstHit_congr _ fun day => (searchDay_congr z
        (searchTimes_midnight s z year q.month day rfl rfl rfl)).symm
    · rfl

theorem searchYear_entry (hs : s.Orderly) (hq : q.IsReal) (year : Nat) :
    searchYear s z (some q) year = searchYear s z (some (s.entry year q)) year := by
  have hle : q.month ≤ 12 := ((Date.isValid_iff _).mp hq.date).1.2
  simp only [searchYear, searchField, Schedule.entry_month, Nat.min_eq_left hle]
  by_cases hlisted : q.month ∈ s.months
  · rw [filter_from_eq_cons (Field.ascending hs.months) hlisted hle,
      if_pos (by simpa using hlisted), if_pos (by simpa using hlisted)]
    exact firstHit_cons_congr _ (searchMonth_entry z year)
  · rw [if_neg (by simpa using hlisted), if_neg (by simpa using hlisted)]

theorem settles_years (hs : s.Orderly) {years : List Nat} (hyears : years.Sublist s.years) :
    Settles (fun c => s.Tries c ∧ c.year.toNat ∈ years) (s.answer z)
      (firstHit (searchYear s z) none years) := by
  refine settles_firstHit ((Field.ascending hs.years).sublist hyears) ?_ ?_
  · intro c d hc hd hlt
    exact .inl (Int.toNat_lt_toNat (by omega) |>.mp hlt)
  · intro year hyear
    have hbound : ∀ q ∈ (none : Option Clock), q.IsReal ∧ q.year = year := by simp
    refine (settles_searchYear hs z (hyears.subset hyear) hbound).congr ?_
    intro c
    have hcast : s.Tries c → (c.year = year ↔ c.year.toNat = year) := by
      intro hc
      have hpositive := hc.positive
      omega
    simp only [NotBefore, Option.not_mem_none, false_implies, implies_true, and_true]
    exact and_congr_right hcast

/-- The search comes to the answer of the first reading from its start on that has one. -/
theorem settles_search (hs : s.Orderly) (hq : q.IsReal) (hyear : 0 ≤ q.year) :
    Settles (fun c => s.Tries c ∧ ¬ c.Before (s.start q)) (s.answer z) (search s z q) := by
  -- A reading of an earlier year is before the bound, so no candidate is filtered out.
  have htried : ∀ c, s.Tries c → q.year ≤ c.year →
      c.year.toNat ∈ s.years.filter (q.year.toNat ≤ ·) := by
    intro c hc hle
    simp only [List.mem_filter, hc.year, decide_eq_true_eq, true_and]
    omega
  rw [search, if_pos hyear, Schedule.start, ← List.head?_filter]
  cases hyears : s.years.filter (q.year.toNat ≤ ·) with
  | nil =>
    rw [hyears] at htried
    refine settles_empty ?_
    rintro c ⟨hc, hnot⟩
    have hearlier : c.year < q.year := by
      by_contra hle
      simpa using htried c hc (by omega)
    exact hnot (.inl hearlier)
  | cons year rest =>
    have hsub : (year :: rest).Sublist s.years := hyears ▸ List.filter_sublist
    obtain ⟨hless, -⟩ := List.pairwise_cons.mp ((Field.ascending hs.years).sublist hsub)
    have hqle : q.year.toNat ≤ year := by
      have hmem : year ∈ s.years.filter (q.year.toNat ≤ ·) := hyears ▸ List.mem_cons_self
      simpa using (List.mem_filter.mp hmem).2
    have hentry : (s.entry year q).year = year := Schedule.entry_year year
    have hbound : ∀ r ∈ some (s.entry year q), r.IsReal ∧ r.year = year := by
      rintro _ ⟨⟩
      exact ⟨Schedule.isReal_entry hq year, hentry⟩
    have hfirst := settles_searchYear hs z (hsub.subset List.mem_cons_self) hbound
    have hlater := settles_years z hs (List.sublist_of_cons_sublist hsub)
    rw [hyears] at htried
    rw [firstHit_cons_congr rest (searchYear_entry z hs hq year)]
    refine (settles_cons hfirst hlater ?_).congr ?_
    · rintro c d ⟨⟨-, hc⟩, -⟩ ⟨-, hd⟩
      have hlt := hless _ hd
      exact .inl (by omega)
    · intro c
      show _ ↔ s.Tries c ∧ ¬ c.Before (s.entry year q)
      constructor
      · rintro (⟨⟨hc, -⟩, hnot⟩ | ⟨hc, hcrest⟩)
        · exact ⟨hc, hnot _ rfl⟩
        · have hlt := hless _ hcrest
          have hafter : (s.entry year q).Before c := .inl (by omega)
          exact ⟨hc, hafter.asymm⟩
      · rintro ⟨hc, hnot⟩
        have hle : (year : Int) ≤ c.year := by
          by_contra hlt
          exact hnot (.inl (by omega))
        rcases List.mem_cons.mp (htried c hc (by omega)) with hsame | hlater
        · refine .inl ⟨⟨hc, by omega⟩, ?_⟩
          rintro _ ⟨⟩
          exact hnot
        · exact .inr ⟨hc, hlater⟩

end JobWatch.Cron
