import ProvCpl.DoWhile
import ProvCpl.OdbcOperation
import ProvCpl.QualifiedName

/-! # Diagnostic records of a failed call

`fetch_odbc_error` asks for one record after the other while the answer is `SQL_SUCCESS`. A
message that is cut by its buffer is answered with `SQL_SUCCESS_WITH_INFO`: its record is
collected and the loop ends. The decision to reconnect is taken on what was collected. -/
namespace DiagnosticRecords

open DoWhile QualifiedName OdbcOperation

def textSize : ℕ := 256

/-- The largest `SQLSMALLINT`. -/
def maxRecNumber : ℕ := 32767

/-- What is attached to a handle; messages consist of characters of one byte. -/
structure DiagnosticRecord where
  state : String
  native : ℤ
  message : String
  deriving DecidableEq, Repr

def DiagnosticRecord.Fits (r : DiagnosticRecord) : Prop := r.message.length < textSize

instance : DecidablePred DiagnosticRecord.Fits := fun _ => inferInstanceAs (Decidable (_ < _))

structure CplOdbcErrorRecord where
  index : Int16
  native : ℤ
  state : String
  text : String
  length : ℤ
  deriving DecidableEq, Repr

/-- What `SQLGetDiagRec` returns and stores through its pointers. -/
structure Answer where
  ret : SqlReturn
  native : ℤ
  state : String
  text : String
  length : ℤ
  deriving DecidableEq, Repr

def Answer.record (a : Answer) (index : Int16) : CplOdbcErrorRecord :=
  ⟨index, a.native, a.state, a.text, a.length⟩

/-- The lines on stderr about an answer that is no record. -/
def complaint : SqlReturn → List String
  | .success | .successWithInfo | .noData => []
  | .error => ["SQLGetDiagRec failed with error SQL_ERROR\n"]
  | .invalidHandle => ["SQLGetDiagRec failed with error SQL_INVALID_HANDLE\n"]
  | .other code => ["SQLGetDiagRec failed with error code " ++ toString code ++ "\n"]

structure Fetching where
  index : Int16
  errors : List CplOdbcErrorRecord
  printed : List String
  deriving DecidableEq, Repr

section Fetch

variable (sqlGetDiagRec : Int16 → Answer)

/-- One pass; the index is incremented as a `SQLSMALLINT`. -/
def fetchOnce (s : Fetching) : Bool × Fetching :=
  let index := s.index + 1
  let answer := sqlGetDiagRec index
  (answer.ret == .success,
    ⟨index, if answer.ret.Succeeded then s.errors ++ [answer.record index] else s.errors,
      s.printed ++ complaint answer.ret⟩)

/-- `fetch_odbc_error` with a bound on its passes. -/
def fetchOdbcError (passes : ℕ) (errors : List CplOdbcErrorRecord) : Option Fetching :=
  run (fetchOnce sqlGetDiagRec) passes ⟨0, errors, []⟩

/-- The call with an empty vector returns, and has collected these records. -/
def Collects (errors : List CplOdbcErrorRecord) : Prop :=
  ∃ passes s, fetchOdbcError sqlGetDiagRec passes [] = some s ∧ s.errors = errors

end Fetch

def shouldReconnect (errors : List CplOdbcErrorRecord) : Bool :=
  shouldReconnectDueToOdbcError (errors.map CplOdbcErrorRecord.state)

structure CplOdbcErrorRecord.Describes (e : CplOdbcErrorRecord) (r : DiagnosticRecord) : Prop where
  native : e.native = r.native
  state : e.state = r.state
  text : e.text = fetchText textSize r.message

/-- The documented answers of a driver with these records on the handle. -/
structure Reports (sqlGetDiagRec : Int16 → Answer) (records : List DiagnosticRecord) : Prop where
  notPositive : ∀ i ≤ 0, (sqlGetDiagRec i).ret = .error
  past : ∀ k < maxRecNumber, records.length ≤ k → (sqlGetDiagRec (.ofNat (k + 1))).ret = .noData
  ret : ∀ k < maxRecNumber, ∀ r, records[k]? = some r →
    (sqlGetDiagRec (.ofNat (k + 1))).ret = if r.Fits then .success else .successWithInfo
  describes : ∀ k < maxRecNumber, ∀ r, records[k]? = some r →
    ((sqlGetDiagRec (.ofNat (k + 1))).record (.ofNat (k + 1))).Describes r

def untilCut : List DiagnosticRecord → List DiagnosticRecord
  | [] => []
  | r :: rs => if r.Fits then r :: untilCut rs else [r]

/-- Only the last message may be cut, and every record has a number. -/
structure Readable (records : List DiagnosticRecord) : Prop where
  numbered : records.length ≤ maxRecNumber
  fits : ∀ r ∈ records.dropLast, r.Fits

section Records

variable {l m records : List DiagnosticRecord}

theorem untilCut_append (h : ∀ r ∈ l, r.Fits) : untilCut (l ++ m) = l ++ untilCut m := by
  induction l with
  | nil => rfl
  | cons r l ih =>
    rw [List.cons_append, untilCut, if_pos (h r List.mem_cons_self),
      ih fun q hq => h q (List.mem_cons_of_mem r hq)]
    rfl

theorem untilCut_initial (l : List DiagnosticRecord) : untilCut l <+: l := by
  induction l with
  | nil => exact List.prefix_rfl
  | cons r l ih =>
    unfold untilCut
    split
    · exact List.prefix_cons_inj r |>.mpr ih
    · exact ⟨l, rfl⟩

theorem untilCut_eq_iff (l : List DiagnosticRecord) :
    untilCut l = l ↔ ∀ r ∈ l.dropLast, r.Fits := by
  induction l with
  | nil => simp [untilCut]
  | cons r l ih =>
    cases l with
    | nil => simp [untilCut]
    | cons q l =>
      rw [List.dropLast_cons_of_ne_nil (List.cons_ne_nil q l), List.forall_mem_cons, ← ih, untilCut]
      by_cases hr : r.Fits
      · simp [hr]
      · simp [hr]

theorem readable_iff :
    (untilCut (records.take maxRecNumber)).length = records.length ↔ Readable records := by
  constructor
  · intro h
    have hinitial := untilCut_initial (records.take maxRecNumber)
    have hle := hinitial.length_le
    rw [h, List.length_take] at hle
    have hnumbered : records.length ≤ maxRecNumber := by omega
    rw [List.take_of_length_le hnumbered] at h hinitial
    exact ⟨hnumbered, (untilCut_eq_iff records).mp (hinitial.eq_of_length h)⟩
  · intro h
    rw [List.take_of_length_le h.numbered, (untilCut_eq_iff records).mpr h.fits]

end Records

section Fetch

variable {sqlGetDiagRec : Int16 → Answer} {records : List DiagnosticRecord} {s t : Fetching}

theorem again_iff : (fetchOnce sqlGetDiagRec s).1 = true ↔
    (sqlGetDiagRec (s.index + 1)).ret = .success := by
  simp [fetchOnce]

theorem errors_of_succeeded (h : (sqlGetDiagRec (s.index + 1)).ret.Succeeded) :
    (fetchOnce sqlGetDiagRec s).2.errors =
      s.errors ++ [(sqlGetDiagRec (s.index + 1)).record (s.index + 1)] :=
  if_pos h

theorem errors_of_not_succeeded (h : ¬ (sqlGetDiagRec (s.index + 1)).ret.Succeeded) :
    (fetchOnce sqlGetDiagRec s).2.errors = s.errors :=
  if_neg h

/-- Before every pass the index is the number of the last record that was collected. -/
structure Numbered (s : Fetching) : Prop where
  index : s.index = .ofNat s.errors.length
  bound : s.errors.length ≤ maxRecNumber

theorem Numbered.next (h : Numbered s) : s.index + 1 = .ofNat (s.errors.length + 1) := by
  rw [h.index, Int16.ofNat_add]
  rfl

/-- After the largest number the index becomes negative. -/
theorem Numbered.wraps (h : Numbered s) (hs : s.errors.length = maxRecNumber) :
    s.index + 1 ≤ 0 := by
  rw [h.next, hs]
  decide

theorem numbered_again (hg : ∀ i ≤ 0, (sqlGetDiagRec i).ret = .error) (h : Numbered s)
    (ha : (fetchOnce sqlGetDiagRec s).1 = true) :
    s.errors.length < maxRecNumber ∧ Numbered (fetchOnce sqlGetDiagRec s).2 ∧
      (fetchOnce sqlGetDiagRec s).2.errors.length = s.errors.length + 1 := by
  have hret := again_iff.mp ha
  have hlt : s.errors.length < maxRecNumber := by
    apply lt_of_le_of_ne h.bound
    intro heq
    rw [hg _ (h.wraps heq)] at hret
    cases hret
  have hlen : (fetchOnce sqlGetDiagRec s).2.errors.length = s.errors.length + 1 := by
    rw [errors_of_succeeded (.inl hret), List.length_append, List.length_singleton]
  refine ⟨hlt, ⟨?_, ?_⟩, hlen⟩
  · rw [hlen]
    exact h.next
  · rw [hlen]
    exact hlt

theorem numbered_start : Numbered ⟨0, [], []⟩ := ⟨rfl, Nat.zero_le _⟩

/-- The call returns, whatever the driver says of the positive numbers. -/
theorem fetch_terminates (hg : ∀ i ≤ 0, (sqlGetDiagRec i).ret = .error) :
    ∃ s, Ends (fetchOnce sqlGetDiagRec) ⟨0, [], []⟩ s := by
  apply exists_ends (fun s => maxRecNumber - s.errors.length) _ numbered_start
  intro s hs ha
  obtain ⟨hlt, hnext, hlen⟩ := numbered_again hg hs ha
  refine ⟨hnext, ?_⟩
  omega

/-- Every record passed so far has been collected and has a message that fits. -/
structure Invariant (records : List DiagnosticRecord) (s : Fetching) : Prop extends
    Numbered s where
  split : ∃ done rest, done ++ rest = records ∧
    List.Forall₂ CplOdbcErrorRecord.Describes s.errors done ∧ ∀ r ∈ done, r.Fits

theorem invariant_start (records : List DiagnosticRecord) : Invariant records ⟨0, [], []⟩ where
  toNumbered := numbered_start
  split := ⟨[], records, rfl, .nil, fun _ hr => nomatch hr⟩

theorem Invariant.cases (h : Reports sqlGetDiagRec records) (hs : Invariant records s) :
    (∃ done r rest, done ++ r :: rest = records ∧ done.length < maxRecNumber ∧
      List.Forall₂ CplOdbcErrorRecord.Describes s.errors done ∧ (∀ q ∈ done, q.Fits) ∧
      (sqlGetDiagRec (s.index + 1)).ret = (if r.Fits then .success else .successWithInfo) ∧
      ((sqlGetDiagRec (s.index + 1)).record (s.index + 1)).Describes r) ∨
    ¬ (sqlGetDiagRec (s.index + 1)).ret.Succeeded ∧
      List.Forall₂ CplOdbcErrorRecord.Describes s.errors (records.take maxRecNumber) ∧
      ∀ r ∈ records.take maxRecNumber, r.Fits := by
  obtain ⟨done, rest, hsplit, hdone, hfits⟩ := hs.split
  have hlen : s.errors.length = done.length := hdone.length_eq
  have hbound := hs.bound
  rcases hbound.lt_or_eq with hlt | heq
  · cases rest with
    | nil =>
      right
      rw [List.append_nil] at hsplit
      subst hsplit
      rw [List.take_of_length_le (hlen ▸ hbound), hs.next, h.past _ hlt hlen.ge]
      exact ⟨by decide, hdone, hfits⟩
    | cons r rest =>
      left
      have hr : records[s.errors.length]? = some r := by
        rw [← hsplit, hlen, List.getElem?_append_right le_rfl, Nat.sub_self]
        rfl
      rw [hs.next, h.ret _ hlt r hr]
      exact ⟨done, r, rest, hsplit, hlen ▸ hlt, hdone, hfits, rfl, h.describes _ hlt r hr⟩
  · right
    have htake : records.take maxRecNumber = done := by
      rw [← hsplit, ← heq, hlen, List.take_left]
    rw [htake, h.notPositive _ (hs.wraps heq)]
    exact ⟨by decide, hdone, hfits⟩

theorem invariant_again (h : Reports sqlGetDiagRec records) (hs : Invariant records s)
    (ha : (fetchOnce sqlGetDiagRec s).1 = true) :
    Invariant records (fetchOnce sqlGetDiagRec s).2 := by
  have hret := again_iff.mp ha
  refine ⟨(numbered_again h.notPositive hs.toNumbered ha).2.1, ?_⟩
  rcases hs.cases h with ⟨done, r, rest, hsplit, -, hdone, hfits, hr, hdescribes⟩ | ⟨hno, -, -⟩
  · have hrfits : r.Fits := by
      by_contra hcut
      rw [hret, if_neg hcut] at hr
      cases hr
    refine ⟨done ++ [r], rest, by rw [List.append_assoc]; exact hsplit, ?_, ?_⟩
    · rw [errors_of_succeeded (.inl hret)]
      exact List.rel_append hdone (.cons hdescribes .nil)
    · exact List.forall_mem_append.mpr ⟨hfits, List.forall_mem_singleton.mpr hrfits⟩
  · exact absurd (.inl hret) hno

theorem collected_last (h : Reports sqlGetDiagRec records) (hs : Invariant records s)
    (ha : (fetchOnce sqlGetDiagRec s).1 = false) :
    List.Forall₂ CplOdbcErrorRecord.Describes (fetchOnce sqlGetDiagRec s).2.errors
      (untilCut (records.take maxRecNumber)) := by
  have hret : (sqlGetDiagRec (s.index + 1)).ret ≠ .success := by
    rw [Ne, ← again_iff, ha]
    exact Bool.false_ne_true
  rcases hs.cases h with ⟨done, r, rest, rfl, hlt, hdone, hfits, hr, hdescribes⟩ |
    ⟨hno, hall, hfits⟩
  · have hcut : ¬ r.Fits := by
      intro hrfits
      rw [if_pos hrfits] at hr
      exact hret hr
    rw [if_neg hcut] at hr
    obtain ⟨k, hk⟩ := Nat.exists_eq_add_of_lt hlt
    have htake : (done ++ r :: rest).take maxRecNumber = done ++ r :: rest.take k := by
      rw [hk, Nat.add_assoc, List.take_length_add_append]
      rfl
    rw [errors_of_succeeded (.inr hr), htake, untilCut_append hfits, untilCut, if_neg hcut]
    exact List.rel_append hdone (.cons hdescribes .nil)
  · rw [errors_of_not_succeeded hno]
    have hreach := untilCut_append (m := []) hfits
    rw [List.append_nil] at hreach
    rw [hreach, untilCut, List.append_nil]
    exact hall

theorem collects_iff_ends {errors : List CplOdbcErrorRecord} : Collects sqlGetDiagRec errors ↔
    ∃ s, Ends (fetchOnce sqlGetDiagRec) ⟨0, [], []⟩ s ∧ s.errors = errors := by
  constructor
  · rintro ⟨passes, s, hs, he⟩
    exact ⟨s, ⟨passes, hs⟩, he⟩
  · rintro ⟨s, ⟨passes, hs⟩, he⟩
    exact ⟨passes, s, hs, he⟩

theorem collects_unique {e e' : List CplOdbcErrorRecord} (he : Collects sqlGetDiagRec e)
    (he' : Collects sqlGetDiagRec e') : e = e' := by
  obtain ⟨s, hs, rfl⟩ := collects_iff_ends.mp he
  obtain ⟨s', hs', rfl⟩ := collects_iff_ends.mp he'
  rw [hs.unique hs']

theorem collects_exists (h : Reports sqlGetDiagRec records) :
    ∃ errors, Collects sqlGetDiagRec errors := by
  obtain ⟨s, hs⟩ := fetch_terminates h.notPositive
  exact ⟨s.errors, collects_iff_ends.mpr ⟨s, hs, rfl⟩⟩

theorem collects_untilCut (h : Reports sqlGetDiagRec records) {errors : List CplOdbcErrorRecord}
    (hc : Collects sqlGetDiagRec errors) :
    List.Forall₂ CplOdbcErrorRecord.Describes errors (untilCut (records.take maxRecNumber)) := by
  obtain ⟨s, hs, rfl⟩ := collects_iff_ends.mp hc
  exact Ends.keeps (Q := fun t => List.Forall₂ CplOdbcErrorRecord.Describes t.errors
    (untilCut (records.take maxRecNumber))) (fun _ => invariant_again h)
    (fun _ => collected_last h) hs (invariant_start records)

theorem states_eq {errors : List CplOdbcErrorRecord} {l : List DiagnosticRecord}
    (h : List.Forall₂ CplOdbcErrorRecord.Describes errors l) :
    errors.map CplOdbcErrorRecord.state = l.map DiagnosticRecord.state := by
  induction h with
  | nil => rfl
  | cons he _ ih => rw [List.map_cons, List.map_cons, he.state, ih]

end Fetch

section Driver

def odbcDriver (records : List DiagnosticRecord) (index : Int16) : Answer :=
  if index ≤ 0 then ⟨.error, 0, "", "", 0⟩
  else
    match records[index.toNatClampNeg - 1]? with
    | some r => ⟨if r.Fits then .success else .successWithInfo, r.native, r.state,
        fetchText textSize r.message, r.message.length⟩
    | none => ⟨.noData, 0, "", "", 0⟩

variable (records : List DiagnosticRecord)

theorem odbcDriver_numbered {k : ℕ} (hk : k < maxRecNumber) :
    odbcDriver records (.ofNat (k + 1)) =
      match records[k]? with
      | some r => ⟨if r.Fits then .success else .successWithInfo, r.native, r.state,
          fetchText textSize r.message, r.message.length⟩
      | none => ⟨.noData, 0, "", "", 0⟩ := by
  have hrange : k + 1 < 2 ^ 15 := by
    unfold maxRecNumber at hk
    omega
  have hpositive : ¬ Int16.ofNat (k + 1) ≤ 0 := by
    rw [Int16.le_iff_toInt_le, Int16.toInt_ofNat_of_lt hrange, Int16.toInt_zero]
    omega
  rw [odbcDriver, if_neg hpositive, Int16.toNatClampNeg_ofNat_of_lt hrange, Nat.add_sub_cancel]

theorem odbcDriver_reports : Reports (odbcDriver records) records where
  notPositive := by
    intro i hi
    rw [odbcDriver, if_pos hi]
  past := by
    intro k hk hlen
    rw [odbcDriver_numbered records hk, List.getElem?_eq_none hlen]
  ret := by
    intro k hk r hr
    rw [odbcDriver_numbered records hk, hr]
  describes := by
    intro k hk r hr
    rw [odbcDriver_numbered records hk, hr]
    exact ⟨rfl, rfl, rfl⟩

end Driver

section Decision

variable {sqlGetDiagRec : Int16 → Answer} {records : List DiagnosticRecord}
  {errors : List CplOdbcErrorRecord}

/-- The first record says that the link is down, and no other one is reached. -/
def LinkDown (records : List DiagnosticRecord) : Prop :=
  ∃ r rest, records = r :: rest ∧ r.state = "08S01" ∧ (rest = [] ∨ ¬ r.Fits)

theorem untilCut_eq_nil_iff (l : List DiagnosticRecord) : untilCut l = [] ↔ l = [] := by
  cases l with
  | nil => simp [untilCut]
  | cons r l =>
    unfold untilCut
    split <;> simp

theorem states_reached_iff :
    (untilCut (records.take maxRecNumber)).map DiagnosticRecord.state = ["08S01"] ↔
      LinkDown records := by
  cases records with
  | nil => simp [untilCut, LinkDown]
  | cons r rest =>
    rw [maxRecNumber, List.take_succ_cons, untilCut]
    by_cases hr : r.Fits
    · simp [LinkDown, hr, untilCut_eq_nil_iff]
    · simp [LinkDown, hr]

theorem shouldReconnect_collected_iff (h : Reports sqlGetDiagRec records)
    (hc : Collects sqlGetDiagRec errors) : shouldReconnect errors = true ↔ LinkDown records := by
  rw [shouldReconnect, shouldReconnect_iff, states_eq (collects_untilCut h hc), states_reached_iff]

/-- The decision is wrong where a cut message hides the records after a lost link. -/
theorem decision_right_iff (h : Reports sqlGetDiagRec records)
    (hc : Collects sqlGetDiagRec errors) :
    (shouldReconnect errors = true ↔ ∃ r, records = [r] ∧ r.state = "08S01") ↔
      ¬ ∃ r q rest, records = r :: q :: rest ∧ r.state = "08S01" ∧ ¬ r.Fits := by
  rw [shouldReconnect_collected_iff h hc]
  rcases records with _ | ⟨r, _ | ⟨q, rest⟩⟩
  · simp [LinkDown]
  · simp [LinkDown]
  · simp [LinkDown]

/-- The call returns with one entry for each record, in order, and the link counts as lost when
there is one record and it says so. -/
def DecidesOnAll (sqlGetDiagRec : Int16 → Answer) (records : List DiagnosticRecord) : Prop :=
  ∃ errors, Collects sqlGetDiagRec errors ∧
    errors.map CplOdbcErrorRecord.state = records.map DiagnosticRecord.state ∧
    (shouldReconnect errors = true ↔ ∃ r, records = [r] ∧ r.state = "08S01")

theorem decidesOnAll_iff (h : Reports sqlGetDiagRec records) :
    DecidesOnAll sqlGetDiagRec records ↔ Readable records := by
  constructor
  · rintro ⟨errors, hc, hstates, -⟩
    have hlen := (collects_untilCut h hc).length_eq
    have hall : errors.length = records.length := by
      simpa only [List.length_map] using congrArg List.length hstates
    exact readable_iff.mp (hlen.symm.trans hall)
  · intro hr
    obtain ⟨errors, hc⟩ := collects_exists h
    have hall : untilCut (records.take maxRecNumber) = records := by
      rw [List.take_of_length_le hr.numbered]
      exact (untilCut_eq_iff records).mpr hr.fits
    refine ⟨errors, hc, hall ▸ states_eq (collects_untilCut h hc), ?_⟩
    rw [decision_right_iff h hc]
    rintro ⟨r, q, rest, rfl, -, hcut⟩
    exact hcut (hr.fits r (by simp))

end Decision

theorem lost_link_decided : DecidesOnAll (odbcDriver [⟨"08S01", 26, "connection lost"⟩])
    [⟨"08S01", 26, "connection lost"⟩] :=
  (decidesOnAll_iff (odbcDriver_reports _)).mpr ⟨by decide, by decide⟩

def longMessage : String := String.ofList (List.replicate textSize 'x')

def cutRecords : List DiagnosticRecord :=
  [⟨"08S01", 26, longMessage⟩, ⟨"HY000", 1, "rolled back"⟩]

/-- The second record is not collected, and the operation is to reconnect. -/
theorem cut_message_hides_record : ¬ DecidesOnAll (odbcDriver cutRecords) cutRecords ∧
    ∃ errors, Collects (odbcDriver cutRecords) errors ∧
      errors.map CplOdbcErrorRecord.state = ["08S01"] ∧ shouldReconnect errors = true := by
  have hreports := odbcDriver_reports cutRecords
  obtain ⟨errors, hc⟩ := collects_exists hreports
  have hlength : longMessage.length = textSize :=
    String.length_ofList.trans List.length_replicate
  have hcut : ¬ (⟨"08S01", 26, longMessage⟩ : DiagnosticRecord).Fits := hlength.not_lt
  have hreached : untilCut (cutRecords.take maxRecNumber) = [⟨"08S01", 26, longMessage⟩] := by
    rw [List.take_of_length_le (by decide), cutRecords, untilCut, if_neg hcut]
  have hstates : errors.map CplOdbcErrorRecord.state = ["08S01"] := by
    rw [states_eq (collects_untilCut hreports hc), hreached]
    rfl
  refine ⟨?_, errors, hc, hstates, ?_⟩
  · rintro ⟨errors', hc', hall, -⟩
    rw [← collects_unique hc hc', hstates] at hall
    cases hall
  · rw [shouldReconnect, shouldReconnect_iff, hstates]

section Attempts

variable {sqlGetDiagRec : Int16 → Answer} {records : List DiagnosticRecord}

/-- The execution fails, and the decision is taken on what is collected from its handle. -/
def FailsWith (a : Attempt) (sqlGetDiagRec : Int16 → Answer) : Prop :=
  ∃ committed errors, Collects sqlGetDiagRec errors ∧
    a.execute = .failed committed (errors.map CplOdbcErrorRecord.state)

/-- An attempt that fails reconnects on the first record when the others are not reached. -/
theorem reconnects_iff_linkDown (h : Reports sqlGetDiagRec records) {op : Operation} {a : Attempt}
    (hf : FailsWith a sqlGetDiagRec) : a.Reconnects op ↔ a.Binds op ∧ LinkDown records := by
  obtain ⟨committed, errors, hc, hexecute⟩ := hf
  rw [← shouldReconnect_collected_iff h hc, shouldReconnect, shouldReconnect_iff]
  apply and_congr_right
  intro _
  constructor
  · rintro ⟨committed', he⟩
    rw [hexecute] at he
    injection he
  · intro hstates
    exact ⟨committed, hstates ▸ hexecute⟩

end Attempts

end DiagnosticRecords
