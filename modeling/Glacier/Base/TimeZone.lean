/-
TimeZone (timezone.h, timezone.cc): the transitions and local-time types of a zone, the search for the type in force,
and the conversions toLocalTime and fromLocalTime.

Undefined behaviour of the source is a `Fault` result: front() or back() of an empty vector, an index out of range, a
failed assert. A time is an unbounded integer, and gmtime_r and timegm are those of the Gregorian calendar.
- `findLocaltime_defined`: over a zone whose indices are in range the search is defined, for any order of the
  transitions.
- `findLocaltime_eq`: where the compared key is strictly increasing, the search finds the type of the last transition
  whose key is at most the sentry's, or the first type when there is none.
- `findLocaltime_linear`: so it does, without a fault and without an iterator outside the transitions.
- `Usable.toLocalTime_defined`, `Usable.fromLocalTime_defined`: both conversions of a usable zone are defined on every
  argument.
-/
import Glacier.Lib.ByteString
import Glacier.Lib.Calendar
import Glacier.Lib.LowerBound

namespace Glacier.TimeZone

open Calendar Cxx

structure Transition where
  gmttime : ℤ
  localtime : ℤ
  localtimeIdx : ℕ
deriving DecidableEq, Repr

structure Localtime where
  gmtOffset : ℤ
  isDst : Bool
  arrbIdx : ℕ
deriving DecidableEq, Repr

/-- TimeZone::Data; its `names` are never read -/
structure Data where
  transitions : List Transition
  localtimes : List Localtime
  abbreviation : Bytes
deriving DecidableEq, Repr

structure Comp where
  compareGmt : Bool

def Comp.lt (comp : Comp) (lhs rhs : Transition) : Bool :=
  if comp.compareGmt then lhs.gmttime < rhs.gmttime else lhs.localtime < rhs.localtime

def Comp.equal (comp : Comp) (lhs rhs : Transition) : Bool :=
  if comp.compareGmt then lhs.gmttime == rhs.gmttime else lhs.localtime == rhs.localtime

inductive Fault where
  /-- front() or back() of an empty vector -/
  | empty
  | index
  | assert
deriving DecidableEq, Repr

/-- `v[i]` -/
def at' {α : Type} (v : List α) (i : ℕ) : Except Fault α :=
  match v[i]? with
  | some x => .ok x
  | none => .error .index

def front {α : Type} (v : List α) : Except Fault α :=
  match v.head? with
  | some x => .ok x
  | none => .error .empty

def back {α : Type} (v : List α) : Except Fault α :=
  match v.getLast? with
  | some x => .ok x
  | none => .error .empty

/-- std::lower_bound over the transitions -/
def lowerBound (transitions : List Transition) (sentry : Transition) (comp : Comp) : ℕ :=
  LowerBound.lowerBound (fun i => transitions[i]?.any (comp.lt · sentry)) transitions.length

def findLocaltime (data : Data) (sentry : Transition) (comp : Comp) : Except Fault Localtime :=
  if data.transitions.head?.all (comp.lt sentry ·) then front data.localtimes
  else do
    let transI := lowerBound data.transitions sentry comp
    if transI ≠ data.transitions.length then
      let found ← at' data.transitions transI
      if !comp.equal sentry found then
        if transI = 0 then .error .assert
        else
          let before ← at' data.transitions (transI - 1)
          at' data.localtimes before.localtimeIdx
      else at' data.localtimes found.localtimeIdx
    else
      let last ← back data.transitions
      at' data.localtimes last.localtimeIdx

/-- the string at `&abbreviation[i]`; the terminating NUL at index size() may be addressed -/
def zoneName (abbreviation : Bytes) (i : ℕ) : Except Fault Bytes :=
  if i ≤ abbreviation.length then .ok ((abbreviation.drop i).takeWhile (· ≠ 0)) else .error .index

def toLocalTime (data : Data) (seconds : ℤ) : Except Fault Tm := do
  let loc ← findLocaltime data ⟨seconds, 0, 0⟩ ⟨true⟩
  let localSeconds := seconds + loc.gmtOffset
  let zone ← zoneName data.abbreviation loc.arrbIdx
  .ok { gmtime localSeconds with tmIsdst := if loc.isDst then 1 else 0, tmGmtoff := loc.gmtOffset, tmZone := zone }

def fromLocalTime (data : Data) (localTm : Tm) : Except Fault ℤ := do
  let seconds := timegm localTm
  let loc ← findLocaltime data ⟨0, seconds, 0⟩ ⟨false⟩
  if localTm.tmIsdst ≠ 0 then
    let tryTm ← toLocalTime data (seconds - loc.gmtOffset)
    if tryTm.tmIsdst = 0 ∧ tryTm.tmHour = localTm.tmHour ∧ tryTm.tmMin = localTm.tmMin then
      .ok (seconds - 3600 - loc.gmtOffset)
    else .ok (seconds - loc.gmtOffset)
  else .ok (seconds - loc.gmtOffset)

/-! ## The search is defined -/

/-- what the search needs of a zone -/
structure InRange (data : Data) : Prop where
  localtimes : data.localtimes ≠ []
  idx : ∀ tr ∈ data.transitions, tr.localtimeIdx < data.localtimes.length

theorem at'_of_lt {α : Type} {v : List α} {i : ℕ} (h : i < v.length) : at' v i = .ok v[i] := by
  simp [at', h]

theorem front_defined {α : Type} {v : List α} (h : v ≠ []) : ∃ x ∈ v, front v = .ok x := by
  cases v with
  | nil => exact absurd rfl h
  | cons x v => exact ⟨x, List.mem_cons_self, rfl⟩

theorem InRange.at'_idx {data : Data} (h : InRange data) {tr : Transition} (htr : tr ∈ data.transitions) :
    ∃ l ∈ data.localtimes, at' data.localtimes tr.localtimeIdx = .ok l :=
  ⟨_, List.getElem_mem (h.idx tr htr), at'_of_lt (h.idx tr htr)⟩

theorem Comp.lt_eq_false {comp : Comp} {a b : Transition} (hlt : comp.lt a b = false) (hgt : comp.lt b a = false) :
    comp.equal a b = true := by
  unfold Comp.lt at hlt hgt
  unfold Comp.equal
  split_ifs at hlt hgt ⊢ <;> simp only [decide_eq_false_iff_not, not_lt, beq_iff_eq] at hlt hgt ⊢ <;> omega

/-- The assert of the search never fails, whatever the order of the transitions: the halving search only stops at the
first position when that element is not less than the sentry, and the sentry is not less than it either. -/
theorem lowerBound_zero {transitions : List Transition} {sentry first found : Transition} {comp : Comp}
    (hfirst : transitions.head? = some first) (hlt : comp.lt sentry first = false)
    (h0 : lowerBound transitions sentry comp = 0) (hfound : transitions[0]? = some found) :
    comp.equal sentry found = true := by
  cases transitions with
  | nil => cases hfirst
  | cons tr rest =>
    cases hfirst
    cases hfound
    apply Comp.lt_eq_false hlt
    have hat := LowerBound.lowerBound_at (fun i => (first :: rest)[i]?.any (comp.lt · sentry))
      (n := (first :: rest).length)
    unfold lowerBound at h0
    rw [h0] at hat
    simpa using hat (by simp)

theorem findLocaltime_defined {data : Data} (h : InRange data) (sentry : Transition) (comp : Comp) :
    ∃ l ∈ data.localtimes, findLocaltime data sentry comp = .ok l := by
  unfold findLocaltime
  cases hfirst : data.transitions.head? with
  | none => simpa using front_defined h.localtimes
  | some first =>
    by_cases hlt : comp.lt sentry first = true
    · simpa [hlt] using front_defined h.localtimes
    · have hlt : comp.lt sentry first = false := by simpa using hlt
      simp only [Option.all_some, hlt, Bool.false_eq_true, if_false]
      have hle := LowerBound.lowerBound_le (fun i => data.transitions[i]?.any (comp.lt · sentry)) data.transitions.length
      change lowerBound data.transitions sentry comp ≤ _ at hle
      by_cases hend : lowerBound data.transitions sentry comp = data.transitions.length
      · obtain ⟨last, hlast⟩ : ∃ last, data.transitions.getLast? = some last := by
          cases hd : data.transitions with
          | nil => rw [hd] at hfirst; cases hfirst
          | cons tr rest => exact ⟨_, List.getLast?_eq_some_getLast (List.cons_ne_nil tr rest)⟩
        simpa [hend, back, hlast, bind, Except.bind] using h.at'_idx (List.mem_of_getLast? hlast)
      · have hi : lowerBound data.transitions sentry comp < data.transitions.length := by omega
        simp only [ne_eq, hend, not_false_eq_true, if_true, at'_of_lt hi, bind, Except.bind]
        by_cases heq : comp.equal sentry data.transitions[lowerBound data.transitions sentry comp] = true
        · simpa [heq] using h.at'_idx (List.getElem_mem hi)
        · have h0 : lowerBound data.transitions sentry comp ≠ 0 := fun h0 =>
            heq (lowerBound_zero hfirst hlt h0 (by simp [h0]))
          have hi' : lowerBound data.transitions sentry comp - 1 < data.transitions.length := by omega
          simpa [heq, h0, at'_of_lt hi'] using h.at'_idx (List.getElem_mem hi')

/-- a zone whose conversions are all defined -/
structure Usable (data : Data) : Prop extends InRange data where
  arrb : ∀ l ∈ data.localtimes, l.arrbIdx < data.abbreviation.length

theorem Usable.toLocalTime_defined {data : Data} (h : Usable data) (seconds : ℤ) :
    ∃ tm, toLocalTime data seconds = .ok tm := by
  obtain ⟨l, hl, hfind⟩ := findLocaltime_defined h.toInRange ⟨seconds, 0, 0⟩ ⟨true⟩
  simp [toLocalTime, hfind, zoneName, (h.arrb l hl).le, bind, Except.bind]

theorem Usable.fromLocalTime_defined {data : Data} (h : Usable data) (localTm : Tm) :
    ∃ t, fromLocalTime data localTm = .ok t := by
  obtain ⟨l, -, hfind⟩ := findLocaltime_defined h.toInRange ⟨0, timegm localTm, 0⟩ ⟨false⟩
  obtain ⟨tryTm, htry⟩ := h.toLocalTime_defined (timegm localTm - l.gmtOffset)
  simp only [fromLocalTime, hfind, htry, bind, Except.bind]
  split_ifs <;> exact ⟨_, rfl⟩

/-! ## The search over increasing keys -/

def Comp.key (comp : Comp) (tr : Transition) : ℤ := if comp.compareGmt then tr.gmttime else tr.localtime

theorem Comp.lt_iff (comp : Comp) (a b : Transition) : comp.lt a b = true ↔ comp.key a < comp.key b := by
  unfold Comp.lt Comp.key
  split_ifs <;> exact decide_eq_true_iff

theorem Comp.equal_iff (comp : Comp) (a b : Transition) : comp.equal a b = true ↔ comp.key a = comp.key b := by
  unfold Comp.equal Comp.key
  split_ifs <;> exact beq_iff_eq

/-- the last transition whose key is at most `v` -/
def lastAtMost (key : Transition → ℤ) (v : ℤ) (transitions : List Transition) : Option Transition :=
  (transitions.filter fun tr => key tr ≤ v).getLast?

/-- the type of the last transition whose key is at most `v`, or the first type -/
def typeAt (data : Data) (key : Transition → ℤ) (v : ℤ) : Except Fault Localtime :=
  match lastAtMost key v data.transitions with
  | some tr => at' data.localtimes tr.localtimeIdx
  | none => front data.localtimes

theorem lastAtMost_none {key : Transition → ℤ} {v : ℤ} {transitions : List Transition}
    (h : ∀ tr ∈ transitions, v < key tr) : lastAtMost key v transitions = none := by
  have hnil : (transitions.filter fun tr => key tr ≤ v) = [] := by
    rw [List.filter_eq_nil_iff]
    intro tr htr
    have := h tr htr
    simp only [decide_eq_true_eq]; omega
  rw [lastAtMost, hnil]; rfl

theorem lastAtMost_getElem (key : Transition → ℤ) (v : ℤ) {transitions : List Transition} {i : ℕ}
    (hi : i < transitions.length) (hle : key transitions[i] ≤ v)
    (hgt : ∀ j (hj : j < transitions.length), i < j → v < key transitions[j]) :
    lastAtMost key v transitions = some transitions[i] := by
  have hsplit : transitions = transitions.take i ++ transitions[i] :: transitions.drop (i + 1) := by
    rw [← List.drop_eq_getElem_cons hi, List.take_append_drop]
  have hnil : (transitions.drop (i + 1)).filter (fun tr => key tr ≤ v) = [] := by
    rw [List.filter_eq_nil_iff]
    intro tr htr
    obtain ⟨j, hj, rfl⟩ := List.getElem_of_mem htr
    rw [List.length_drop] at hj
    have := hgt (i + 1 + j) (by omega) (by omega)
    simp only [List.getElem_drop, decide_eq_true_eq]; omega
  have hfilter := congrArg (List.filter fun tr => decide (key tr ≤ v)) hsplit
  rw [List.filter_append, List.filter_cons_of_pos (by simpa using hle), hnil] at hfilter
  rw [lastAtMost, hfilter, List.getLast?_concat]

/-- **The search is the linear definition** where the compared key is strictly increasing. -/
theorem findLocaltime_eq (data : Data) (sentry : Transition) (comp : Comp)
    (hsorted : data.transitions.Pairwise fun a b => comp.key a < comp.key b) :
    findLocaltime data sentry comp = typeAt data comp.key (comp.key sentry) := by
  rw [List.pairwise_iff_getElem] at hsorted
  set trs := data.transitions with htrs
  set v := comp.key sentry
  unfold findLocaltime
  rw [← htrs]
  cases hfirst : trs.head? with
  | none =>
    have hnil : trs = [] := List.head?_eq_none_iff.1 hfirst
    simp [typeAt, lastAtMost, ← htrs, hnil]
  | some first =>
    have hpos : 0 < trs.length := by
      cases htl : trs with
      | nil => rw [htl] at hfirst; cases hfirst
      | cons tr rest => simp
    have hhead : trs[0] = first := by
      rw [List.head?_eq_getElem?, List.getElem?_eq_getElem hpos] at hfirst
      exact Option.some.inj hfirst
    by_cases hlt : comp.lt sentry first = true
    · -- the sentry comes before every transition
      have hall : ∀ tr ∈ trs, v < comp.key tr := by
        intro tr htr
        obtain ⟨j, hj, rfl⟩ := List.getElem_of_mem htr
        have h0 : v < comp.key trs[0] := by rw [hhead]; exact (comp.lt_iff _ _).1 hlt
        rcases Nat.eq_zero_or_pos j with rfl | hj0
        · exact h0
        · exact h0.trans (hsorted 0 j hpos hj hj0)
      simp [hlt, typeAt, ← htrs, lastAtMost_none hall]
    · have hfalse : comp.lt sentry first = false := by simpa using hlt
      simp only [Option.all_some, hfalse, Bool.false_eq_true, if_false]
      set k := lowerBound trs sentry comp with hk
      have hle : k ≤ trs.length := LowerBound.lowerBound_le _ _
      have hbefore : ∀ i (hi : i < trs.length), i + 1 = k → comp.key trs[i] < v := by
        intro i hi hik
        have := LowerBound.lowerBound_before (fun i => trs[i]?.any (comp.lt · sentry)) (n := trs.length) (hik.trans hk)
        exact (comp.lt_iff _ _).1 (by simpa [hi] using this)
      have hat : ∀ hi : k < trs.length, v ≤ comp.key trs[k] := by
        intro hi
        have := LowerBound.lowerBound_at (fun i => trs[i]?.any (comp.lt · sentry)) (n := trs.length) hi
        by_contra hc
        have hlt' := (comp.lt_iff trs[k] sentry).2 (by omega)
        change trs[k]?.any (comp.lt · sentry) = false at this
        simp [hi, hlt'] at this
      by_cases hend : k = trs.length
      · -- every transition is before the sentry
        have hlast := lastAtMost_getElem comp.key v (i := trs.length - 1) (by omega)
          (hbefore _ (by omega) (by omega)).le fun j hj hij => by omega
        have hback : trs.getLast? = some trs[trs.length - 1] := by
          rw [List.getLast?_eq_getElem?, List.getElem?_eq_getElem]
        simp [hend, back, hback, typeAt, ← htrs, hlast, bind, Except.bind]
      · have hi : k < trs.length := by omega
        simp only [ne_eq, hend, not_false_eq_true, if_true, at'_of_lt hi, bind, Except.bind]
        by_cases heq : comp.equal sentry trs[k] = true
        · have hkey := (comp.equal_iff _ _).1 heq
          have hlast := lastAtMost_getElem comp.key v hi hkey.ge fun j hj hij => by
            have := hsorted k j hi hj hij
            omega
          simp [heq, typeAt, ← htrs, hlast]
        · have h0 : k ≠ 0 := fun h0 => heq (lowerBound_zero hfirst hfalse (hk.symm.trans h0) (by simp [h0]))
          have hne : v ≠ comp.key trs[k] := fun hc => heq ((comp.equal_iff _ _).2 hc)
          have hlast := lastAtMost_getElem comp.key v (i := k - 1) (by omega)
            (hbefore _ (by omega) (by omega)).le fun j hj hij => by
              have := hat hi
              rcases Nat.eq_or_lt_of_le (show k ≤ j by omega) with rfl | hkj
              · omega
              · have := hsorted k j hi hj hkj
                omega
          simp [heq, h0, at'_of_lt (show k - 1 < trs.length by omega), typeAt, ← htrs, hlast]

/-- `l` is the type of the last transition whose key is at most `v`, or the first type when there is none -/
def Linear (data : Data) (key : Transition → ℤ) (v : ℤ) (l : Localtime) : Prop :=
  (∃ i, ∃ hi : i < data.transitions.length, key data.transitions[i] ≤ v ∧
    (∀ j (hj : j < data.transitions.length), i < j → v < key data.transitions[j]) ∧
    data.localtimes[data.transitions[i].localtimeIdx]? = some l) ∨
  (∀ tr ∈ data.transitions, v < key tr) ∧ data.localtimes.head? = some l

/-- there is a last transition at or before `v`, or there is none at all -/
theorem exists_last (key : Transition → ℤ) (v : ℤ) (transitions : List Transition) :
    (∃ i, ∃ hi : i < transitions.length, key transitions[i] ≤ v ∧
      ∀ j (hj : j < transitions.length), i < j → v < key transitions[j]) ∨ ∀ tr ∈ transitions, v < key tr := by
  induction transitions using List.reverseRecOn with
  | nil => simp
  | append_singleton trs last ih =>
    by_cases hle : key last ≤ v
    · refine Or.inl ⟨trs.length, by simp, by simpa using hle, ?_⟩
      intro j hj hij
      rw [List.length_append, List.length_singleton] at hj
      omega
    · rcases ih with ⟨i, hi, hkey, hlater⟩ | hnone
      · refine Or.inl ⟨i, by rw [List.length_append]; omega, by rwa [List.getElem_append_left hi], ?_⟩
        intro j hj hij
        by_cases hjl : j < trs.length
        · rw [List.getElem_append_left hjl]
          exact hlater j hjl hij
        · rw [List.getElem_append_right (not_lt.1 hjl), List.getElem_singleton]
          exact not_le.1 hle
      · refine Or.inr ?_
        intro tr htr
        rcases List.mem_append.1 htr with htr | htr
        · exact hnone tr htr
        · rw [List.mem_singleton.1 htr]
          exact not_le.1 hle

theorem typeAt_linear {data : Data} {key : Transition → ℤ} {v : ℤ} {l : Localtime} (h : typeAt data key v = .ok l) :
    Linear data key v l := by
  rcases exists_last key v data.transitions with ⟨i, hi, hkey, hlater⟩ | hnone
  · rw [typeAt, lastAtMost_getElem key v hi hkey hlater] at h
    refine Or.inl ⟨i, hi, hkey, hlater, ?_⟩
    simp only [at'] at h
    split at h
    · next x hx => rw [hx, Except.ok.inj h]
    · cases h
  · rw [typeAt, lastAtMost_none hnone] at h
    refine Or.inr ⟨hnone, ?_⟩
    simp only [front] at h
    split at h
    · next x hx => rw [hx, Except.ok.inj h]
    · cases h

/-- **findLocaltime is the linear definition**, by either key: it gives the type of the last transition that is not after
the sentry, or the first type. No assert and no index fails, and the search compares elements of the vector only. -/
theorem findLocaltime_linear (data : Data) (hdata : InRange data) (sentry : Transition) (comp : Comp)
    (hsorted : data.transitions.Pairwise fun a b => comp.key a < comp.key b) :
    (∃ l, findLocaltime data sentry comp = .ok l ∧ Linear data comp.key (comp.key sentry) l) ∧
      ∀ i ∈ LowerBound.probes (fun i => data.transitions[i]?.any (comp.lt · sentry)) data.transitions.length 0
        data.transitions.length, i < data.transitions.length := by
  obtain ⟨l, -, hl⟩ := findLocaltime_defined hdata sentry comp
  refine ⟨⟨l, hl, ?_⟩, LowerBound.probes_lt _ (by omega)⟩
  rw [findLocaltime_eq data sentry comp hsorted] at hl
  exact typeAt_linear hl

/-- three transitions, and a sentry on the second -/
def three : Data where
  transitions := [⟨10, 13, 1⟩, ⟨20, 22, 0⟩, ⟨30, 33, 1⟩]
  localtimes := [⟨2, false, 0⟩, ⟨3, true, 0⟩]
  abbreviation := ascii "A"

theorem findLocaltime_linear_three : ∃ l, findLocaltime three ⟨20, 0, 0⟩ ⟨true⟩ = .ok l ∧
    Linear three (Comp.key ⟨true⟩) 20 l :=
  (findLocaltime_linear three ⟨by decide, by decide⟩ ⟨20, 0, 0⟩ ⟨true⟩ (by decide)).1

end Glacier.TimeZone
