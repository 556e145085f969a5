/-
The round trip fromLocalTime(toLocalTime(t)).

fromLocalTime searches the transitions by their local times. In the interval that a backward transition repeats, that
search already finds the type after the transition; for an instant of daylight saving time the source then subtracts
a fixed 3600 s.
- `round_trip_iff`: the exact condition under which t comes back. Where the local times increase too, the search in
  the condition is the linear one.
- `half_hour_shift`: a zone whose daylight saving time is half an hour, and an instant shared by no other that does not
  come back.
-/
import Glacier.Base.TimeZone

namespace Glacier.TimeZone

open Calendar

/-- indices in range, and strictly increasing gmttime -/
structure Zone (data : Data) : Prop extends InRange data where
  increasing : data.transitions.Pairwise fun a b => a.gmttime < b.gmttime

/-- each local time is taken with the offset of the transition's own type, as readTimeZoneFile does -/
def Built (data : Data) : Prop :=
  ∀ tr ∈ data.transitions, ∃ l, data.localtimes[tr.localtimeIdx]? = some l ∧
    tr.localtime = tr.gmttime + l.gmtOffset

/-- the name of the type is in the abbreviations -/
def Named (data : Data) (l : Localtime) : Prop := l.arrbIdx ≤ data.abbreviation.length

/-- the two clocks show the same hour and minute -/
def SameClock (a b : ℤ) : Prop := a % 86400 / 3600 = b % 86400 / 3600 ∧ a % 86400 / 60 % 60 = b % 86400 / 60 % 60

instance (a b : ℤ) : Decidable (SameClock a b) := inferInstanceAs (Decidable (_ ∧ _))

/-- The type that `search` finds for the local time of t has the offset in force at t. Or t is in daylight saving time
exactly 3600 s ahead of that type, and 3600 s later the zone is on standard time and shows the same hour and minute.
And the types read on the way have their names in the abbreviations. -/
def Recovers (data : Data) (search : ℤ → Except Fault Localtime) (t : ℤ) : Prop :=
  ∃ l m n, typeAt data (·.gmttime) t = .ok l ∧ search (t + l.gmtOffset) = .ok m ∧
    typeAt data (·.gmttime) (t + (l.gmtOffset - m.gmtOffset)) = .ok n ∧
    Named data l ∧ (l.isDst = true → Named data n) ∧
    (m.gmtOffset = l.gmtOffset ∨ l.isDst = true ∧ l.gmtOffset - m.gmtOffset = 3600 ∧ n.isDst = false ∧
      SameClock (t + 3600 + n.gmtOffset) (t + l.gmtOffset))

/-- the search of fromLocalTime -/
def searchLocal (data : Data) (v : ℤ) : Except Fault Localtime := findLocaltime data ⟨0, v, 0⟩ ⟨false⟩

/-- toLocalTime and then fromLocalTime -/
def roundTrip (data : Data) (t : ℤ) : Except Fault ℤ := toLocalTime data t >>= fromLocalTime data

/-- the civil fields and tm_isdst of both readings are equal -/
def SameReading (a b : Tm) : Prop :=
  a.tmYear = b.tmYear ∧ a.tmMon = b.tmMon ∧ a.tmMday = b.tmMday ∧ a.tmHour = b.tmHour ∧ a.tmMin = b.tmMin ∧
    a.tmSec = b.tmSec ∧ a.tmIsdst = b.tmIsdst

/-- no other instant of the zone has the civil fields and the tm_isdst of t -/
def Unshared (data : Data) (t : ℤ) : Prop :=
  ∀ t' a b, toLocalTime data t = .ok a → toLocalTime data t' = .ok b → SameReading a b → t' = t

/-! ## The two conversions -/

theorem SameReading.timegm_eq {a b : Tm} (h : SameReading a b) : timegm a = timegm b := by
  obtain ⟨h1, h2, h3, h4, h5, h6, -⟩ := h
  simp only [timegm, h1, h2, h3, h4, h5, h6]

/-- the reading that toLocalTime gives at the offset of type `l` -/
def reading (data : Data) (l : Localtime) (t : ℤ) : Tm :=
  { gmtime (t + l.gmtOffset) with
    tmIsdst := if l.isDst then 1 else 0
    tmGmtoff := l.gmtOffset
    tmZone := (data.abbreviation.drop l.arrbIdx).takeWhile (· ≠ 0) }

/-- toLocalTime reads the clock at the offset of the type in force, if that type has its name -/
theorem Zone.toLocalTime_eq {data : Data} (h : Zone data) (t : ℤ) :
    ∃ l, typeAt data (·.gmttime) t = .ok l ∧ (Named data l → toLocalTime data t = .ok (reading data l t)) ∧
      (¬ Named data l → toLocalTime data t = .error .index) := by
  obtain ⟨l, hl, hfind⟩ := findLocaltime_defined h.toInRange ⟨t, 0, 0⟩ ⟨true⟩
  have heq := findLocaltime_eq data ⟨t, 0, 0⟩ ⟨true⟩ h.increasing
  refine ⟨l, heq.symm.trans hfind, ?_, ?_⟩
  · intro hname
    rw [Named] at hname
    simp [toLocalTime, hfind, zoneName, hname, reading, bind, Except.bind]
  · intro hname
    rw [Named] at hname
    simp [toLocalTime, hfind, zoneName, hname, bind, Except.bind]

theorem timegm_reading (data : Data) (l : Localtime) (t : ℤ) : timegm (reading data l t) = t + l.gmtOffset :=
  timegm_gmtime (t + l.gmtOffset)

theorem reading_isDst (data : Data) (l : Localtime) (t : ℤ) : (reading data l t).tmIsdst = 0 ↔ l.isDst = false := by
  unfold reading
  cases l.isDst <;> simp

theorem reading_clock (data : Data) (l m : Localtime) (t u : ℤ) :
    (reading data l t).tmHour = (reading data m u).tmHour ∧ (reading data l t).tmMin = (reading data m u).tmMin ↔
      SameClock (t + l.gmtOffset) (u + m.gmtOffset) := Iff.rfl

/-- what the round trip returns -/
theorem Zone.roundTrip_eq {data : Data} (h : Zone data) (t : ℤ) :
    ∃ l m n, typeAt data (·.gmttime) t = .ok l ∧ searchLocal data (t + l.gmtOffset) = .ok m ∧
      typeAt data (·.gmttime) (t + (l.gmtOffset - m.gmtOffset)) = .ok n ∧
      (Named data l → (l.isDst = true → Named data n) → roundTrip data t =
        .ok (if l.isDst = true ∧ n.isDst = false ∧
            SameClock (t + (l.gmtOffset - m.gmtOffset) + n.gmtOffset) (t + l.gmtOffset) then
          t + (l.gmtOffset - m.gmtOffset) - 3600 else t + (l.gmtOffset - m.gmtOffset))) ∧
      (∀ r, roundTrip data t = .ok r → Named data l ∧ (l.isDst = true → Named data n)) := by
  obtain ⟨l, htype, hto, hto_err⟩ := h.toLocalTime_eq t
  obtain ⟨m, -, hm⟩ := findLocaltime_defined h.toInRange ⟨0, t + l.gmtOffset, 0⟩ ⟨false⟩
  obtain ⟨n, htype', hto', hto_err'⟩ := h.toLocalTime_eq (t + (l.gmtOffset - m.gmtOffset))
  have hsub : t + l.gmtOffset - m.gmtOffset = t + (l.gmtOffset - m.gmtOffset) := by ring
  have hsub' : t + l.gmtOffset - 3600 - m.gmtOffset = t + (l.gmtOffset - m.gmtOffset) - 3600 := by ring
  have hdst := reading_isDst data l t
  refine ⟨l, m, n, htype, hm, htype', ?_, fun r hr => ⟨?_, ?_⟩⟩
  · intro hl hn
    simp only [roundTrip, hto hl, fromLocalTime, bind, Except.bind, timegm_reading, hm, hsub, hsub']
    by_cases hd : l.isDst = true
    · have hne : (reading data l t).tmIsdst ≠ 0 := fun h0 => by rw [hdst.1 h0] at hd; cases hd
      rw [if_pos hne, hto' (hn hd)]
      simp only [reading_isDst, reading_clock, hd, true_and]
      split_ifs <;> rfl
    · rw [if_neg (not_not.2 (hdst.2 (by simpa using hd))), if_neg fun hc => hd hc.1]
  · by_contra hl
    rw [roundTrip, hto_err hl] at hr
    cases hr
  · intro hd
    by_contra hn
    have hne : (reading data l t).tmIsdst ≠ 0 := fun h0 => by rw [hdst.1 h0] at hd; cases hd
    by_cases hl : Named data l
    · simp only [roundTrip, hto hl, fromLocalTime, bind, Except.bind, timegm_reading, hm, hsub, if_pos hne,
        hto_err' hn] at hr
      cases hr
    · rw [roundTrip, hto_err hl] at hr
      cases hr

/-! ## Main results -/

/-- **Round trip.** An instant of a zone with strictly increasing gmttime comes back through fromLocalTime exactly
when its type is recovered; where the local times increase too, this is a condition on the last transition whose local
time is at most that of the instant. -/
theorem round_trip_iff (data : Data) (h : Zone data) (t : ℤ) :
    (roundTrip data t = .ok t ↔ Recovers data (searchLocal data) t) ∧
      (data.transitions.Pairwise (fun a b => a.localtime < b.localtime) →
        (roundTrip data t = .ok t ↔ Recovers data (typeAt data (·.localtime)) t)) := by
  have hgen : roundTrip data t = .ok t ↔ Recovers data (searchLocal data) t := by
    obtain ⟨l, m, n, hl, hm, hn, heq, hnamed⟩ := h.roundTrip_eq t
    constructor
    · intro hback
      obtain ⟨hname, hname'⟩ := hnamed t hback
      refine ⟨l, m, n, hl, hm, hn, hname, hname', ?_⟩
      rw [heq hname hname', Except.ok.injEq] at hback
      split_ifs at hback with hc
      · obtain ⟨hdst, hstd, hclock⟩ := hc
        have h3600 : l.gmtOffset - m.gmtOffset = 3600 := by omega
        rw [h3600] at hclock
        exact Or.inr ⟨hdst, h3600, hstd, hclock⟩
      · exact Or.inl (by omega)
    · intro ⟨l', m', n', hl', hm', hn', hname, hname', hor⟩
      obtain rfl : l = l' := Except.ok.inj (hl.symm.trans hl')
      obtain rfl : m = m' := Except.ok.inj (hm.symm.trans hm')
      obtain rfl : n = n' := Except.ok.inj (hn.symm.trans hn')
      rw [heq hname hname', Except.ok.injEq]
      rcases hor with hsame | ⟨hdst, h3600, hstd, hclock⟩
      · -- the second conversion is that of t itself: it is on daylight saving time as t is
        have h0 : l.gmtOffset - m.gmtOffset = 0 := by omega
        rw [h0, add_zero] at hn
        obtain rfl : l = n := Except.ok.inj (hl.symm.trans hn)
        rw [if_neg (by intro ⟨h1, h2, _⟩; rw [h1] at h2; cases h2)]
        omega
      · rw [h3600, if_pos ⟨hdst, hstd, hclock⟩]
        omega
  refine ⟨hgen, ?_⟩
  intro hsorted
  have hsearch : searchLocal data = typeAt data (·.localtime) := funext fun v =>
    findLocaltime_eq data ⟨0, v, 0⟩ ⟨false⟩ hsorted
  rw [← hsearch]
  exact hgen

/-- the last hour of daylight saving time one hour ahead comes back -/
theorem round_trip_iff_hour :
    let data : Data := ⟨[⟨0, 0, 1⟩], [⟨3600, true, 0⟩, ⟨0, false, 0⟩], [88, 0]⟩
    Zone data ∧ roundTrip data (-600) = .ok (-600) := by
  intro data
  have hzone : Zone data := ⟨⟨by decide, by decide⟩, by decide⟩
  refine ⟨hzone, (round_trip_iff data hzone (-600)).1.2 ?_⟩
  exact ⟨⟨3600, true, 0⟩, ⟨0, false, 0⟩, ⟨0, false, 0⟩, rfl, by decide +kernel, rfl, Nat.zero_le _,
    fun _ => Nat.zero_le _, Or.inr (by decide)⟩

/-- daylight saving time half an hour ahead until 1970, standard time from then on -/
def halfHour : Data where
  transitions := [⟨0, 0, 1⟩]
  localtimes := [⟨1800, true, 0⟩, ⟨0, false, 0⟩]
  abbreviation := [88, 0]

theorem halfHour_zone : Zone halfHour := ⟨⟨by decide, by decide⟩, by decide⟩

theorem halfHour_typeAt (t : ℤ) :
    typeAt halfHour (·.gmttime) t = .ok (if t < 0 then ⟨1800, true, 0⟩ else ⟨0, false, 0⟩) := by
  by_cases ht : t < 0
  · have h0 : ¬ 0 ≤ t := by omega
    simp [typeAt, lastAtMost, halfHour, front, ht, h0]
  · have h0 : 0 ≤ t := by omega
    simp [typeAt, lastAtMost, halfHour, at', ht, h0]

theorem halfHour_toLocalTime (t : ℤ) : toLocalTime halfHour t =
    .ok (reading halfHour (if t < 0 then ⟨1800, true, 0⟩ else ⟨0, false, 0⟩) t) := by
  obtain ⟨l, hl, hto, -⟩ := halfHour_zone.toLocalTime_eq t
  rw [halfHour_typeAt, Except.ok.injEq] at hl
  subst hl
  apply hto
  split_ifs <;> exact Nat.zero_le _

/-- ten minutes before the shift -/
theorem halfHour_unshared : Unshared halfHour (-600) := by
  intro t' a b ha hb hsame
  rw [halfHour_toLocalTime] at ha hb
  obtain rfl := Except.ok.inj ha
  obtain rfl := Except.ok.inj hb
  have hclock := hsame.timegm_eq
  rw [timegm_reading, timegm_reading] at hclock
  have hdst := hsame.2.2.2.2.2.2
  by_cases ht : t' < 0
  · simp only [ht, if_true, show (-600 : ℤ) < 0 by decide] at hclock
    omega
  · simp [reading, ht] at hdst

/-- **A shift of half an hour.** The last instants before it do not come back, though nothing else shares their
reading. -/
theorem half_hour_shift : Zone halfHour ∧ Built halfHour ∧ Usable halfHour ∧ Unshared halfHour (-600) ∧
    roundTrip halfHour (-600) ≠ .ok (-600) := by
  refine ⟨halfHour_zone, ?_, ⟨halfHour_zone.toInRange, by decide⟩, halfHour_unshared, ?_⟩
  · intro tr htr
    obtain rfl : tr = ⟨0, 0, 1⟩ := by simpa [halfHour] using htr
    exact ⟨⟨0, false, 0⟩, rfl, rfl⟩
  · have hback : roundTrip halfHour (-600) = .ok (-2400) := rfl
    rw [hback]
    decide

end Glacier.TimeZone
