/-
readTimeZoneFile (timezone.cc) over every file content, and the zone that the constructor builds from it.

The reads follow the source one by one. A logic_error is caught inside readTimeZoneFile, after which it returns true all
the same; undefined behaviour ends the run. Memory is assumed to suffice for every count that is not negative.
- `body_ok_iff`: the reads all succeed exactly on the contents that begin with the encoding of a zone table.
- `valid_usable_iff`: the contents for which a zone that reports itself valid is usable are exactly those encodings whose
  indices are in range; every other content is a malformed file that the code accepts.
-/
import Glacier.Base.TimeZone
import Glacier.Lib.ByteReader

namespace Glacier.TimeZone

open Calendar Cxx ByteReader

inductive Stop where
  | logicError (what : String)
  | undefined
deriving DecidableEq, Repr

abbrev Read := Reader Stop Data

/-! ## The reads -/

/-- the signed value of four bytes in network order -/
def be32 (bs : Bytes) : ℤ :=
  let u : ℤ := bs.foldl (fun n b => n * 256 + b.toNat) 0
  if u < 2 ^ 31 then u else u - 2 ^ 32

/-- `char buf[n]` with a negative n is undefined -/
def readBytes (n : ℤ) : Read Bytes := fun s =>
  if n < 0 then (.error .undefined, s)
  else if s.input.length < n.toNat then (.error (.logicError "no enough data"), { s with input := [] })
  else (.ok (s.input.take n.toNat), { s with input := s.input.drop n.toNat })

def readInt32 : Read ℤ := fun s =>
  if s.input.length < 4 then (.error (.logicError "bad int32 data"), { s with input := [] })
  else (.ok (be32 (s.input.take 4)), { s with input := s.input.drop 4 })

def readUInt8 : Read UInt8 := fun s =>
  match s.input with
  | [] => (.error (.logicError "bad uint8 data"), s)
  | x :: rest => (.ok x, { s with input := rest })

def throwIf (c : Prop) [Decidable c] (what : String) : Read Unit :=
  if c then throw (.logicError what) else pure ()

/-- `trans.reserve(n)`: the length_error for a negative n is a logic_error -/
def reserve (n : ℤ) : Read Unit := throwIf (n < 0) "vector::reserve"

/-- one turn of the loop over the types -/
def readLocaltime : Read Localtime := do
  let gmtoff ← readInt32
  let isdst ← readUInt8
  let abbrind ← readUInt8
  pure ⟨gmtoff, isdst ≠ 0, abbrind.toNat⟩

/-- the loop over the types: each is pushed before the next is read -/
def readLocaltimes : ℕ → Read Unit
  | 0 => pure ()
  | n + 1 => do
    let l ← readLocaltime
    edit fun data => { data with localtimes := data.localtimes ++ [l] }
    readLocaltimes n

/-- one turn of the last loop; `data->localtimes[localIdx]` is not checked -/
def pushTransition (p : ℤ × UInt8) : Read Unit := fun s =>
  match s.data.localtimes[p.2.toNat]? with
  | none => (.error .undefined, s)
  | some l =>
    let tr : Transition := ⟨p.1, p.1 + l.gmtOffset, p.2.toNat⟩
    (.ok (), { s with data := { s.data with transitions := s.data.transitions ++ [tr] } })

def pushTransitions : List (ℤ × UInt8) → Read Unit
  | [] => pure ()
  | p :: rest => do
    pushTransition p
    pushTransitions rest

/-- the try block up to the last read; the result is charcnt -/
def readTables : Read ℤ := do
  let head ← readBytes 4
  throwIf (head ≠ ascii "TZif") "bad head"
  let _version ← readBytes 1
  let _ ← readBytes 15
  let _isgmtcnt ← readInt32
  let _isstdcnt ← readInt32
  let _leapcnt ← readInt32
  let timecnt ← readInt32
  let typecnt ← readInt32
  let charcnt ← readInt32
  reserve timecnt
  let trans ← many readInt32 timecnt.toNat
  let localtimes ← many readUInt8 timecnt.toNat
  readLocaltimes typecnt.toNat
  pushTransitions (trans.zip localtimes)
  pure charcnt

/-- the try block -/
def body : Read Unit := do
  let charcnt ← readTables
  let abbreviation ← readBytes charcnt
  edit fun data => { data with abbreviation := abbreviation }

/-- readTimeZoneFile; `none` is a file that cannot be opened. A logic_error is printed and true is returned. -/
def readTimeZoneFile (file : Option Bytes) (data : Data) : Except Stop (Bool × Data) :=
  match file with
  | none => .ok (false, data)
  | some content =>
    match body ⟨content, data⟩ with
    | (.error .undefined, _) => .error .undefined
    | (.error (.logicError _), s) => .ok (true, s.data)
    | (.ok (), s) => .ok (true, s.data)

/-- TimeZone(const char*): the pointer to the data, null if the zone is not valid -/
def ofFile (file : Option Bytes) : Except Stop (Option Data) := do
  let (ok, data) ← readTimeZoneFile file ⟨[], [], []⟩
  .ok (if ok then some data else none)

/-! ## The encoding of a zone table -/

def toBe32 (x : ℤ) : Bytes :=
  let u := (x % 2 ^ 32).toNat
  [.ofNat (u / 2 ^ 24), .ofNat (u / 2 ^ 16), .ofNat (u / 2 ^ 8), .ofNat u]

def Int32 (x : ℤ) : Prop := -2 ^ 31 ≤ x ∧ x < 2 ^ 31

/-- one entry of the type table: offset, DST flag, index of the abbreviation -/
structure TypeEntry where
  gmtoff : ℤ
  isdst : UInt8
  abbrind : UInt8

def TypeEntry.bytes (e : TypeEntry) : Bytes := toBe32 e.gmtoff ++ [e.isdst, e.abbrind]

def TypeEntry.localtime (e : TypeEntry) : Localtime := ⟨e.gmtoff, e.isdst ≠ 0, e.abbrind.toNat⟩

/-- the contents of a zone file: header, tables, and whatever follows them -/
structure Table where
  version : Bytes
  reserved : Bytes
  /-- isgmtcnt, isstdcnt and leapcnt, which are skipped -/
  skipped : List ℤ
  trans : List ℤ
  idx : List UInt8
  typecnt : ℤ
  types : List TypeEntry
  abbreviation : Bytes
  rest : Bytes
  version_length : version.length = 1
  reserved_length : reserved.length = 15
  skipped_length : skipped.length = 3
  skipped_int32 : ∀ x ∈ skipped, Int32 x
  trans_int32 : ∀ x ∈ trans, Int32 x
  idx_length : idx.length = trans.length
  /-- a negative count reads as no type -/
  types_length : types.length = typecnt.toNat
  types_int32 : ∀ e ∈ types, Int32 e.gmtoff
  /-- the counts are signed 32-bit integers -/
  trans_count : trans.length < 2 ^ 31
  typecnt_int32 : Int32 typecnt
  abbreviation_count : abbreviation.length < 2 ^ 31

def Table.bytes (z : Table) : Bytes :=
  ascii "TZif" ++ (z.version ++ (z.reserved ++ (z.skipped.flatMap toBe32 ++ (toBe32 z.trans.length ++
    (toBe32 z.typecnt ++ (toBe32 z.abbreviation.length ++ (z.trans.flatMap toBe32 ++ (z.idx ++
      (z.types.flatMap TypeEntry.bytes ++ (z.abbreviation ++ z.rest))))))))))

/-- the transition that the last loop builds over the types -/
def transitionOf (localtimes : List Localtime) (p : ℤ × UInt8) : Transition :=
  ⟨p.1, p.1 + localtimes[p.2.toNat]?.elim 0 (·.gmtOffset), p.2.toNat⟩

def Table.data (z : Table) : Data :=
  let localtimes := z.types.map TypeEntry.localtime
  ⟨(z.trans.zip z.idx).map (transitionOf localtimes), localtimes, z.abbreviation⟩

/-- every index of the table points to an entry, and there is a type -/
structure Table.Sound (z : Table) : Prop where
  types : z.types ≠ []
  idx : ∀ i ∈ z.idx, i.toNat < z.types.length
  abbrind : ∀ e ∈ z.types, e.abbrind.toNat < z.abbreviation.length

/-- the encoding of a table whose indices are all in range -/
def WellFormed (content : Bytes) : Prop := ∃ z : Table, z.Sound ∧ z.bytes = content

/-! ## What each read accepts -/

theorem throwIf_ok {c : Prop} [Decidable c] {what : String} {u : Unit} {s t : State Data} :
    throwIf c what s = (.ok u, t) ↔ ¬ c ∧ t = s := by
  unfold throwIf
  split_ifs with hc
  · constructor
    · intro h; cases h
    · intro ⟨h, _⟩; exact absurd hc h
  · rw [pure_ok]
    exact ⟨fun h => ⟨hc, h.2⟩, fun h => ⟨rfl, h.2⟩⟩

theorem readBytes_reads (n : ℤ) : Reads (readBytes n) (fun b => (b.length : ℤ) = n) id := by
  intro s x t
  unfold readBytes
  constructor
  · intro h
    by_cases h0 : n < 0
    · rw [if_pos h0] at h; cases h
    by_cases hlen : s.input.length < n.toNat
    · rw [if_neg h0, if_pos hlen] at h; cases h
    rw [if_neg h0, if_neg hlen] at h
    cases h
    refine ⟨?_, (List.take_append_drop n.toNat s.input).symm, rfl⟩
    show ((List.take n.toNat s.input).length : ℤ) = n
    rw [List.length_take]; omega
  · intro ⟨hlen, hin, hdata⟩
    have hn : n.toNat = x.length := by omega
    rw [if_neg (by omega), if_neg (by rw [hin, hn, id, List.length_append]; omega)]
    cases t
    cases hdata
    simp [hin, hn]

theorem toBe32_length (x : ℤ) : (toBe32 x).length = 4 := rfl

theorem be32_toBe32 {x : ℤ} (h : Int32 x) : be32 (toBe32 x) = x := by
  obtain ⟨h0, h1⟩ := h
  simp only [be32, toBe32, List.foldl_cons, List.foldl_nil, UInt8.toNat_ofNat']
  norm_num
  split_ifs <;> omega

/-- the unsigned value of four bytes in network order -/
theorem be32_eq (a b c d : UInt8) :
    Int32 (be32 [a, b, c, d]) ∧ (be32 [a, b, c, d] % 2 ^ 32).toNat =
      a.toNat * 2 ^ 24 + b.toNat * 2 ^ 16 + c.toNat * 2 ^ 8 + d.toNat := by
  have ha := a.toNat_lt
  have hb := b.toNat_lt
  have hc := c.toNat_lt
  have hd := d.toNat_lt
  simp only [be32, Int32, List.foldl_cons, List.foldl_nil]
  split_ifs <;> omega

theorem toBe32_be32 (a b c d : UInt8) : toBe32 (be32 [a, b, c, d]) = [a, b, c, d] := by
  have ha := a.toNat_lt
  have hb := b.toNat_lt
  have hc := c.toNat_lt
  have hd := d.toNat_lt
  simp only [toBe32, (be32_eq a b c d).2, List.cons.injEq, and_true, ← UInt8.toNat_inj, UInt8.toNat_ofNat']
  omega

theorem readInt32_reads : Reads readInt32 Int32 toBe32 := by
  intro s x t
  unfold readInt32
  constructor
  · intro h
    by_cases hlen : s.input.length < 4
    · rw [if_pos hlen] at h; cases h
    rw [if_neg hlen] at h
    cases h
    obtain ⟨a, b, c, d, rest, hin⟩ : ∃ a b c d rest, s.input = a :: b :: c :: d :: rest := by
      rcases s with ⟨_ | ⟨a, _ | ⟨b, _ | ⟨c, _ | ⟨d, rest⟩⟩⟩⟩, data⟩ <;> simp at hlen ⊢
    refine ⟨?_, ?_, rfl⟩
    · rw [hin]; exact (be32_eq a b c d).1
    · rw [hin]; exact congrArg (· ++ rest) (toBe32_be32 a b c d).symm
  · intro ⟨hx, hin, hdata⟩
    have hlen : ¬ s.input.length < 4 := by rw [hin, List.length_append, toBe32_length]; omega
    rw [if_neg hlen, hin, List.take_left' (toBe32_length x), List.drop_left' (toBe32_length x), be32_toBe32 hx]
    cases t
    cases hdata
    rfl

theorem readUInt8_reads : Reads readUInt8 (fun _ => True) fun x => [x] := by
  intro s x t
  unfold readUInt8
  rcases s with ⟨_ | ⟨y, rest⟩, data⟩
  · constructor
    · intro h; cases h
    · intro ⟨_, hin, _⟩; cases hin
  · constructor
    · intro h; cases h; exact ⟨trivial, rfl, rfl⟩
    · intro ⟨_, hin, hdata⟩
      cases t
      cases hin
      cases hdata
      rfl

theorem readLocaltime_ok {l : Localtime} {s t : State Data} :
    readLocaltime s = (.ok l, t) ↔
      ∃ e : TypeEntry, Int32 e.gmtoff ∧ l = e.localtime ∧ s.input = e.bytes ++ t.input ∧ t.data = s.data := by
  simp only [readLocaltime, readInt32_reads.bind_ok, readUInt8_reads.bind_ok, pure_ok]
  constructor
  · rintro ⟨off, r1, hoff, hin, isdst, r2, -, hin', abbrind, r3, -, hin'', rfl, rfl⟩
    refine ⟨⟨off, isdst, abbrind⟩, hoff, rfl, ?_, rfl⟩
    rw [hin, hin', hin'', TypeEntry.bytes, List.append_assoc]; rfl
  · rintro ⟨e, hoff, rfl, hin, hdata⟩
    refine ⟨e.gmtoff, _, hoff, ?_, e.isdst, _, trivial, rfl, e.abbrind, t.input, trivial, rfl, rfl, ?_⟩
    · rw [hin, TypeEntry.bytes, List.append_assoc]; rfl
    · rw [← hdata]

theorem readLocaltimes_ok {n : ℕ} {u : Unit} {s t : State Data} :
    readLocaltimes n s = (.ok u, t) ↔
      ∃ types : List TypeEntry, types.length = n ∧ (∀ e ∈ types, Int32 e.gmtoff) ∧
        s.input = types.flatMap TypeEntry.bytes ++ t.input ∧
        t.data = { s.data with localtimes := s.data.localtimes ++ types.map TypeEntry.localtime } := by
  induction n generalizing s with
  | zero =>
    rw [readLocaltimes, pure_ok]
    constructor
    · rintro ⟨-, rfl⟩; exact ⟨[], rfl, by simp, rfl, by simp⟩
    · intro ⟨types, hlen, _, hin, hdata⟩
      obtain rfl := List.length_eq_zero_iff.1 hlen
      cases s; cases t
      simp_all
  | succ n ih =>
    simp only [readLocaltimes, bind_ok, readLocaltime_ok, ih]
    constructor
    · rintro ⟨l, s1, ⟨e, hoff, rfl, hin, hdata⟩, _, s2, hedit, types, hlen, hall, hin', hdata'⟩
      cases hedit
      refine ⟨e :: types, by simp [hlen], List.forall_mem_cons.2 ⟨hoff, hall⟩, ?_, ?_⟩
      · rw [hin, List.flatMap_cons, List.append_assoc]; exact congrArg (e.bytes ++ ·) hin'
      · simp [hdata', hdata]
    · intro ⟨types, hlen, hall, hin, hdata⟩
      cases types with
      | nil => cases hlen
      | cons e types =>
        obtain ⟨hoff, hall⟩ := List.forall_mem_cons.1 hall
        rw [List.flatMap_cons, List.append_assoc] at hin
        refine ⟨e.localtime, ⟨_, s.data⟩, ⟨e, hoff, rfl, hin, rfl⟩, (), _, rfl, types, by simpa using hlen, hall, rfl, ?_⟩
        simp [hdata]

theorem pushTransitions_ok {l : List (ℤ × UInt8)} {u : Unit} {s t : State Data} :
    pushTransitions l s = (.ok u, t) ↔ (∀ p ∈ l, p.2.toNat < s.data.localtimes.length) ∧ t = { s with data :=
      { s.data with transitions := s.data.transitions ++ l.map (transitionOf s.data.localtimes) } } := by
  induction l generalizing s with
  | nil => simp [pushTransitions, pure_ok]
  | cons p l ih =>
    simp only [pushTransitions, bind_ok, ih, List.forall_mem_cons]
    constructor
    · rintro ⟨_, s1, hpush, hall, rfl⟩
      unfold pushTransition at hpush
      cases hl : s.data.localtimes[p.2.toNat]? with
      | none => simp only [hl] at hpush; cases hpush
      | some x =>
        simp only [hl] at hpush
        cases hpush
        refine ⟨⟨(List.getElem?_eq_some_iff.1 hl).1, hall⟩, ?_⟩
        simp [transitionOf, hl]
    · rintro ⟨⟨hp, hall⟩, rfl⟩
      have hl : s.data.localtimes[p.2.toNat]? = some s.data.localtimes[p.2.toNat] := List.getElem?_eq_getElem hp
      let tr : Transition := ⟨p.1, p.1 + s.data.localtimes[p.2.toNat].gmtOffset, p.2.toNat⟩
      refine ⟨(), { s with data := { s.data with transitions := s.data.transitions ++ [tr] } }, ?_, hall, ?_⟩
      · simp only [pushTransition, hl, tr]
      · simp [transitionOf, hl, tr]

/-! ## The whole file -/

/-- **The reads all succeed exactly on the encodings.** The indices of the transitions are the only ones used while
reading. -/
theorem body_ok_iff (content : Bytes) (s : State Data) :
    body ⟨content, ⟨[], [], []⟩⟩ = (.ok (), s) ↔
      ∃ z : Table, (∀ i ∈ z.idx, i.toNat < z.types.length) ∧ z.bytes = content ∧ s = ⟨z.rest, z.data⟩ := by
  simp only [body, readTables, (readBytes_reads _).bind_ok, readInt32_reads.bind_ok, bind_ok, throwIf_ok, reserve,
    (many_reads readInt32_reads _).bind_ok, (many_reads readUInt8_reads _).bind_ok, readLocaltimes_ok, pushTransitions_ok,
    pure_ok, id]
  constructor
  · -- the reads in the order of the file; each leaves the rest to the next
    intro hbody
    obtain ⟨_, _, htables, hbody⟩ := hbody
    obtain ⟨abbreviation, r11, habbr, hin12, hedit⟩ := hbody
    obtain ⟨head, r0, -, hin0, _, s0, ⟨hmagic, hs0⟩, htables⟩ := htables
    subst hs0
    obtain ⟨version, r1, hversion, hin1, reserved, r2, hreserved, hin2, htables⟩ := htables
    obtain ⟨c1, r3, hc1, hin3, c2, r4, hc2, hin4, c3, r5, hc3, hin5, htables⟩ := htables
    obtain ⟨timecnt, r6, htimecnt, hin6, typecnt, r7, htypecnt, hin7, htables⟩ := htables
    obtain ⟨charcnt, r8, hcharcnt, hin8, _, s1, ⟨htime0, hs1⟩, htables⟩ := htables
    subst hs1
    obtain ⟨trans, r9, ⟨htrans, htrans32⟩, hin9, idx, r10, ⟨hidx, -⟩, hin10, htables⟩ := htables
    obtain ⟨_, s2, ⟨types, htypes, htypes32, hin11, hdata⟩, htables⟩ := htables
    obtain ⟨_, s3, ⟨hall, hs3⟩, hcount, hs⟩ := htables
    subst hs3 hcount hs
    cases hedit
    have hmagic : head = ascii "TZif" := not_not.1 hmagic
    have htime : timecnt = trans.length := by omega
    have hlen : idx.length = trans.length := hidx.trans htrans.symm
    have hzip : ∀ i ∈ idx, ∃ x, (x, i) ∈ trans.zip idx := by
      intro i hi
      obtain ⟨j, hj, rfl⟩ := List.getElem_of_mem hi
      exact ⟨trans[j], List.mem_iff_getElem.2 ⟨j, by simp; omega, by simp⟩⟩
    refine ⟨⟨version, reserved, [c1, c2, c3], trans, idx, typecnt, types, abbreviation, r11, by exact_mod_cast hversion,
      by exact_mod_cast hreserved, rfl, by simp [hc1, hc2, hc3], htrans32, hlen, htypes, htypes32,
      by have := htimecnt.2; omega, htypecnt, by have := hcharcnt.2; omega⟩, ?_, ?_, ?_⟩
    · intro i hi
      obtain ⟨x, hx⟩ := hzip i hi
      simpa [hdata] using hall _ hx
    · simp only at hin1 hin9 hin10 hin11 hin12
      simp only [Table.bytes, List.flatMap_cons, List.flatMap_nil, List.append_nil, List.append_assoc]
      rw [hin0, hmagic, hin1, hin2, hin3, hin4, hin5, hin6, hin7, hin8, hin9, hin10, hin11, hin12, htime, habbr,
        List.flatMap_singleton']
    · simp [Table.data, hdata]
  · rintro ⟨z, hidx, rfl, rfl⟩
    obtain ⟨c1, c2, c3, hskip⟩ := List.length_eq_three.1 z.skipped_length
    have hc := z.skipped_int32
    rw [hskip] at hc
    simp only [List.forall_mem_cons] at hc
    have htrans := z.trans_count
    have habbr := z.abbreviation_count
    let tail := z.types.flatMap TypeEntry.bytes ++ (z.abbreviation ++ z.rest)
    refine ⟨z.abbreviation.length, ⟨z.abbreviation ++ z.rest, { z.data with abbreviation := [] }⟩,
      ⟨ascii "TZif", _, rfl, rfl, (), _, ⟨by simp, rfl⟩, z.version, _, by simp [z.version_length], rfl, z.reserved, _,
        by simp [z.reserved_length], rfl, c1, _, hc.1, ?_, c2, _, hc.2.1, rfl, c3, _, hc.2.2.1, rfl, z.trans.length, _,
        ⟨by omega, by omega⟩, rfl, z.typecnt, _, z.typecnt_int32, rfl, z.abbreviation.length, _,
        ⟨by omega, by omega⟩, rfl, (), _, ⟨by omega, rfl⟩, z.trans, z.idx ++ tail, ⟨by simp, z.trans_int32⟩, rfl, z.idx,
        tail, ⟨by simp [z.idx_length], by simp⟩, ?_, (),
        ⟨z.abbreviation ++ z.rest, ⟨[], z.types.map TypeEntry.localtime, []⟩⟩,
        ⟨z.types, z.types_length, z.types_int32, rfl, by simp⟩, (), _, ⟨?_, rfl⟩, rfl, ?_⟩,
      z.abbreviation, z.rest, rfl, rfl, rfl⟩
    · simp only [hskip, List.flatMap_cons, List.flatMap_nil, List.append_nil, List.append_assoc, tail]
    · simp only [List.flatMap_singleton']
    · intro p hp
      simpa using hidx p.2 (List.of_mem_zip hp).2
    · simp [Table.data]

/-- the abbreviations are filled by the last read only -/
theorem readTables_keeps : Keeps (·.abbreviation) readTables := by
  have hbytes : ∀ n, Keeps (·.abbreviation) (readBytes n) := by
    intro n s; unfold readBytes; split_ifs <;> rfl
  have hint : Keeps (·.abbreviation) readInt32 := by
    intro s; unfold readInt32; split_ifs <;> rfl
  have huint : Keeps (·.abbreviation) readUInt8 := by
    intro s; unfold readUInt8; split <;> rfl
  have hthrow : ∀ (c : Prop) [Decidable c] (what : String), Keeps (·.abbreviation) (throwIf c what) := by
    intro c _ what s; unfold throwIf; split_ifs <;> rfl
  have htypes : ∀ n, Keeps (·.abbreviation) (readLocaltimes n) := by
    intro n
    induction n with
    | zero => exact Keeps.pure _ ()
    | succ n ih =>
      apply Keeps.bind (hint.bind fun _ => huint.bind fun _ => huint.bind fun _ => Keeps.pure _ _)
      intro _
      exact Keeps.bind (Keeps.edit fun _ => rfl) fun _ => ih
  have hpush : ∀ l, Keeps (·.abbreviation) (pushTransitions l) := by
    intro l
    induction l with
    | nil => exact Keeps.pure _ ()
    | cons p l ih =>
      refine Keeps.bind ?_ fun _ => ih
      intro s
      unfold pushTransition
      split <;> rfl
  exact (hbytes 4).bind fun _ => (hthrow _ _).bind fun _ => (hbytes 1).bind fun _ => (hbytes 15).bind fun _ =>
    hint.bind fun _ => hint.bind fun _ => hint.bind fun _ => hint.bind fun _ => hint.bind fun _ => hint.bind fun _ =>
    (hthrow _ _).bind fun _ => (hint.many _).bind fun _ => (huint.many _).bind fun _ => (htypes _).bind fun _ =>
    (hpush _).bind fun _ => Keeps.pure _ _

/-- a try block that throws leaves the abbreviations empty -/
theorem body_error {content : Bytes} {e : Stop} {s : State Data}
    (h : body ⟨content, ⟨[], [], []⟩⟩ = (.error e, s)) : s.data.abbreviation = [] := by
  have hkeep := readTables_keeps ⟨content, ⟨[], [], []⟩⟩
  rw [body, bind_error] at h
  rcases h with hread | ⟨charcnt, t, hread, h⟩
  · rw [hread] at hkeep; exact hkeep
  · rw [hread] at hkeep
    rw [bind_error] at h
    rcases h with hbytes | ⟨_, _, -, hedit⟩
    · unfold readBytes at hbytes
      by_cases h0 : charcnt < 0
      · rw [if_pos h0] at hbytes; cases hbytes; exact hkeep
      by_cases hlen : t.input.length < charcnt.toNat
      · rw [if_neg h0, if_pos hlen] at hbytes; cases hbytes; exact hkeep
      rw [if_neg h0, if_neg hlen] at hbytes; cases hbytes
    · cases hedit

/-! ## Main results -/

/-- If the constructor finishes with a valid zone, the zone is usable: every toLocalTime and every fromLocalTime is
defined. -/
def ValidUsable (file : Option Bytes) : Prop :=
  ∃ zone, ofFile file = .ok zone ∧ ∀ data, zone = some data →
    Usable data ∧ (∀ seconds, ∃ tm, toLocalTime data seconds = .ok tm) ∧
      ∀ localTm, ∃ t, fromLocalTime data localTm = .ok t

/-- a malformed content leaves the zone invalid -/
def MalformedInvalid (file : Option Bytes) : Prop :=
  ∀ content, file = some content → ¬ WellFormed content → ofFile file = .ok none

theorem Table.data_usable {z : Table} (h : z.Sound) : Usable z.data where
  localtimes := by simpa [Table.data] using h.types
  idx := by
    intro tr htr
    obtain ⟨p, hp, rfl⟩ := List.mem_map.1 htr
    simpa [Table.data, transitionOf] using h.idx p.2 (List.of_mem_zip hp).2
  arrb := by
    intro l hl
    obtain ⟨e, he, rfl⟩ := List.mem_map.1 hl
    exact h.abbrind e he

/-- the table of a zone that is usable is sound -/
theorem Table.sound_of_usable {z : Table} (hidx : ∀ i ∈ z.idx, i.toNat < z.types.length) (h : Usable z.data) :
    z.Sound where
  types := by simpa [Table.data] using h.localtimes
  idx := hidx
  abbrind := fun e he => h.arrb e.localtime (List.mem_map_of_mem he)

theorem ofFile_some (content : Bytes) {r : Except Stop Unit} {s : State Data}
    (h : body ⟨content, ⟨[], [], []⟩⟩ = (r, s)) (hr : r ≠ .error .undefined) :
    ofFile (some content) = .ok (some s.data) := by
  unfold ofFile readTimeZoneFile
  rcases r with (what | _) | _
  · simp [h, bind, Except.bind]
  · exact absurd rfl hr
  · simp [h, bind, Except.bind]

/-- what the source accepts is usable exactly on the well-formed contents -/
theorem validUsable_iff (file : Option Bytes) :
    ValidUsable file ↔ ∀ content, file = some content → WellFormed content := by
  cases file with
  | none =>
    constructor
    · intro _ content h; cases h
    · exact fun _ => ⟨none, rfl, fun _ h => by cases h⟩
  | some content =>
    rcases hbody : body ⟨content, ⟨[], [], []⟩⟩ with ⟨e | u, s⟩
    · -- the reads threw: no abbreviation, so no usable zone and no sound table
      have habbr := body_error hbody
      have hnot : ¬ WellFormed content := by
        intro ⟨z, hz, hbytes⟩
        have hok := (body_ok_iff content ⟨z.rest, z.data⟩).2 ⟨z, hz.idx, hbytes, rfl⟩
        rw [hbody] at hok; cases hok
      refine ⟨?_, fun h => absurd (h content rfl) hnot⟩
      intro ⟨zone, hzone, huse⟩
      by_cases he : e = .undefined
      · subst he
        simp [ofFile, readTimeZoneFile, hbody, bind, Except.bind] at hzone
      · rw [ofFile_some content hbody (by simpa using he), Except.ok.injEq] at hzone
        obtain ⟨huse, -⟩ := huse s.data hzone.symm
        obtain ⟨l, hl⟩ := List.exists_mem_of_ne_nil _ huse.localtimes
        have := huse.arrb l hl
        rw [habbr] at this
        exact absurd this (Nat.not_lt_zero _)
    · obtain ⟨z, hidx, rfl, rfl⟩ := (body_ok_iff content s).1 hbody
      have hfile := ofFile_some z.bytes hbody (by simp)
      constructor
      · intro ⟨zone, hzone, huse⟩ c hc
        cases hc
        rw [hfile, Except.ok.injEq] at hzone
        exact ⟨z, z.sound_of_usable hidx (huse z.data hzone.symm).1, rfl⟩
      · intro h
        obtain ⟨z', hz', hbytes⟩ := h z.bytes rfl
        have hok := (body_ok_iff z.bytes ⟨z'.rest, z'.data⟩).2 ⟨z', hz'.idx, hbytes, rfl⟩
        rw [hbody] at hok
        have hdata : z.data = z'.data := by injection hok with _ hs; injection hs
        have huse : Usable z.data := by rw [hdata]; exact z'.data_usable hz'
        refine ⟨_, hfile, ?_⟩
        intro data hd
        cases hd
        exact ⟨huse, huse.toLocalTime_defined, huse.fromLocalTime_defined⟩

/-- **A valid zone is usable exactly for well-formed files.** For every file, a zone that reports itself valid is usable
and malformed contents leave it invalid if and only if the file cannot be opened or its content is well formed. The
first half alone already fails on every other content. -/
theorem valid_usable_iff (file : Option Bytes) :
    (ValidUsable file ∧ MalformedInvalid file ↔ ∀ content, file = some content → WellFormed content) ∧
      (ValidUsable file ↔ ∀ content, file = some content → WellFormed content) := by
  refine ⟨⟨fun h => (validUsable_iff file).1 h.1, fun h => ⟨(validUsable_iff file).2 h, ?_⟩⟩, validUsable_iff file⟩
  intro content hc hmal
  exact absurd (h content hc) hmal

/-- **The empty file is a valid zone** without a single local-time type. -/
theorem empty_file_valid : ofFile (some []) = .ok (some ⟨[], [], []⟩) ∧ ¬ ValidUsable (some []) := by
  have hfile : ofFile (some []) = .ok (some ⟨[], [], []⟩) := rfl
  refine ⟨hfile, ?_⟩
  intro ⟨zone, hzone, huse⟩
  rw [hfile, Except.ok.injEq] at hzone
  exact (huse _ hzone.symm).1.localtimes rfl

end Glacier.TimeZone
