import Lexigram.Proofs.Pattern.SearchBounds
import Lexigram.Stream.Lexer

/-!
What a lexer should give, said without a window. `Lexicon.lexWhole` searches all
the input that is left, again and again. `Lexicon.lexReads` searches what a list
of reads has brought so far, and takes the next read whenever that is no reason
to decide; once there are no more reads it goes on like `lexWhole`.
-/

namespace Lexigram

open Pattern (Match)

/-- The bytes without a character at the end whose own end is missing. -/
def Text.complete (bytes : List UInt8) : List UInt8 :=
  bytes.take (completeLength bytes)

theorem Text.length_complete_le (bytes : List UInt8) :
    (complete bytes).length ≤ bytes.length :=
  List.length_take_le' _ _

/-! ## Verdicts -/

/-- What becomes of the bytes at the front of the input: a piece of it in some
role, or an end of the work. -/
inductive Verdict where
  | piece (length : Nat) (role : Role) (pos : 0 < length)
  | unmatchable
  deriving DecidableEq

/-- The result for bytes at `p` in a role; white space gives none. -/
def Role.result? (p : Position) (bytes : List UInt8) : Role → Option LexResult
  | .token kind => some (.ok ⟨kind, Text.lossy bytes⟩)
  | .whitespace => none
  | .error => some (.error (.invalidToken p (Text.lossy bytes)))

/-- The error that the bytes at `p` are unmatchable. -/
def unmatchableAt (p : Position) (bytes : List UInt8) : LexResult :=
  .error (.unmatchable p
    (String.ofList ((Text.decodeLossy bytes).take snippetLength)))

/-- The results for the bytes at `p`: that of the piece in front, and those of
the `rest`. -/
def Verdict.results (p : Position) (bytes : List UInt8)
    (rest : Position → List UInt8 → List LexResult) :
    Verdict → List LexResult
  | .piece length role _ =>
    (role.result? p (bytes.take length)).toList
      ++ rest (p.past (bytes.take length)) (bytes.drop length)
  | .unmatchable => [unmatchableAt p bytes]

namespace Lexicon

/-- The verdict on a match. Bytes in front of it are in error, or unmatchable
without a fallback. -/
def verdict (c : Lexicon) (m : Match) : Verdict :=
  if skipped : 0 < m.start then
    if c.hasFallback then .piece m.start .error skipped else .unmatchable
  else if empty : m.stop = 0 then .unmatchable
  else match c.classify m with
    | some role => .piece m.stop role (Nat.pos_of_ne_zero empty)
    | none => .unmatchable

/-- The verdict on bytes that more may follow: none without a match, or with one
up to their end. -/
def verdictSoFar? (c : Lexicon) (seen : List UInt8) : Option Verdict :=
  match c.master.search? (Text.complete seen) with
  | some m =>
    if m.stop = (Text.complete seen).length then none else some (c.verdict m)
  | none => none

/-- The verdict on bytes that nothing follows. -/
def finalVerdict (c : Lexicon) (text : List UInt8)
    (nonempty : 0 < text.length) : Verdict :=
  match c.master.search? text with
  | some m => c.verdict m
  | none =>
    if c.hasFallback then .piece text.length .error nonempty else .unmatchable

/-! ## The two lexers -/

/-- The results for all the input there is, which starts at `p`. -/
def lexWhole (c : Lexicon) (p : Position) (text : List UInt8) :
    List LexResult :=
  if nonempty : 0 < text.length then
    match c.finalVerdict text nonempty with
    | .piece length role _ =>
      (role.result? p (text.take length)).toList
        ++ c.lexWhole (p.past (text.take length)) (text.drop length)
    | .unmatchable => [unmatchableAt p text]
  else [.error .endOfStream]
termination_by text.length
decreasing_by rw [List.length_drop]; omega

/-- The results for the bytes seen, which start at `p`, and the reads to
come. -/
def lexReads (c : Lexicon) (p : Position) (seen : List UInt8)
    (reads : List (List UInt8)) : List LexResult :=
  if _ : 0 < seen.length then
    match c.verdictSoFar? seen with
    | some (.piece length role _) =>
      (role.result? p (seen.take length)).toList
        ++ c.lexReads (p.past (seen.take length)) (seen.drop length) reads
    | some .unmatchable => [unmatchableAt p seen]
    | none =>
      match reads with
      | [] => c.lexWhole p seen
      | read :: reads => c.lexReads p (seen ++ read) reads
  else
    match reads with
    | [] => [.error .endOfStream]
    | read :: reads => c.lexReads p read reads
termination_by (reads.length, seen.length)
decreasing_by
  · exact .right _ (by rw [List.length_drop]; omega)
  · exact .left _ _ (Nat.lt_succ_self _)
  · exact .left _ _ (Nat.lt_succ_self _)

/-- Whether the matches in the input so far that stop before its end are those
in all the input. -/
def PrefixStable (c : Lexicon) : Prop :=
  ∀ (text : List UInt8) (n : Nat) (m : Match),
    c.master.search? (Text.complete (text.take n)) = some m →
      m.stop < (Text.complete (text.take n)).length →
      c.master.search? text = some m

variable {c : Lexicon} {p : Position}

/-- A piece stops in the match it was made for. -/
theorem length_le_of_verdict {m : Match}
    {length : Nat} {role : Role} {pos : 0 < length} (ordered : m.start ≤ m.stop)
    (h : c.verdict m = .piece length role pos) : length ≤ m.stop := by
  simp only [verdict] at h
  repeat' split at h
  all_goals cases h
  · exact ordered
  · exact Nat.le_refl _

/-- A verdict so far is one on a match that stops before the end of the bytes
seen. -/
theorem verdictSoFar?_eq_some {seen : List UInt8} {v : Verdict} :
    c.verdictSoFar? seen = some v ↔
      ∃ m, c.master.search? (Text.complete seen) = some m
        ∧ m.stop < (Text.complete seen).length ∧ c.verdict m = v := by
  simp only [verdictSoFar?]
  cases found : c.master.search? (Text.complete seen) with
  | none => simp
  | some m =>
    have inside := (Pattern.Compiled.bounds_of_search? found).2
    have before : m.stop ≠ (Text.complete seen).length
        ↔ m.stop < (Text.complete seen).length := by
      omega
    simp [← before]

/-- A piece that a verdict so far makes is in the bytes seen. -/
theorem length_le_of_verdictSoFar? {seen : List UInt8}
    {length : Nat} {role : Role} {pos : 0 < length}
    (h : c.verdictSoFar? seen = some (.piece length role pos)) :
    length ≤ seen.length := by
  obtain ⟨m, found, inside, judged⟩ := verdictSoFar?_eq_some.mp h
  calc length ≤ m.stop := length_le_of_verdict
         (Pattern.Compiled.bounds_of_search? found).1 judged
    _ ≤ (Text.complete seen).length := Nat.le_of_lt inside
    _ ≤ seen.length := Text.length_complete_le seen

/-- Nothing seen is no reason to decide. -/
@[simp] theorem verdictSoFar?_nil : c.verdictSoFar? [] = none := by
  rw [Option.eq_none_iff_forall_not_mem]
  intro v decided
  obtain ⟨m, -, inside, -⟩ := verdictSoFar?_eq_some.mp decided
  exact Nat.not_lt_zero _ (Nat.lt_of_lt_of_le inside
    (Text.length_complete_le []))

theorem length_pos_of_verdictSoFar? {seen : List UInt8} {v : Verdict}
    (decided : c.verdictSoFar? seen = some v) : 0 < seen.length := by
  cases seen with
  | nil => rw [verdictSoFar?_nil] at decided; cases decided
  | cons b bytes => exact Nat.succ_pos _

@[simp] theorem lexWhole_nil : c.lexWhole p [] = [.error .endOfStream] := by
  rw [lexWhole]; rfl

theorem lexWhole_of_pos {text : List UInt8} (nonempty : 0 < text.length) :
    c.lexWhole p text = (c.finalVerdict text nonempty).results p text
      c.lexWhole := by
  rw [lexWhole, dif_pos nonempty]
  cases c.finalVerdict text nonempty <;> rfl

/-- What the bytes seen decide, the reads to come do not change. -/
theorem lexReads_of_verdict {seen : List UInt8} {v : Verdict}
    {reads : List (List UInt8)} (decided : c.verdictSoFar? seen = some v) :
    c.lexReads p seen reads = v.results p seen fun p rest =>
      c.lexReads p rest reads := by
  rw [lexReads.eq_def, dif_pos (length_pos_of_verdictSoFar? decided), decided]
  cases v <;> rfl

theorem lexReads_nil {seen : List UInt8}
    (undecided : c.verdictSoFar? seen = none) :
    c.lexReads p seen [] = c.lexWhole p seen := by
  rw [lexReads]
  split
  · rw [undecided]
  · next empty =>
    cases List.length_eq_zero_iff.mp (Nat.eq_zero_of_not_pos empty)
    rw [lexWhole_nil]

theorem lexReads_cons {seen read : List UInt8} {reads : List (List UInt8)}
    (undecided : c.verdictSoFar? seen = none) :
    c.lexReads p seen (read :: reads) = c.lexReads p (seen ++ read) reads := by
  rw [lexReads]
  split
  · rw [undecided]
  · next empty =>
    cases List.length_eq_zero_iff.mp (Nat.eq_zero_of_not_pos empty)
    rfl

/-- Induction along the work of `lexReads`: a verdict takes bytes off those
seen, else the next read is added to them. -/
theorem reading_induction (c : Lexicon)
    {motive : Position → List UInt8 → List (List UInt8) → Prop}
    (last : ∀ p seen, c.verdictSoFar? seen = none → motive p seen [])
    (read : ∀ p seen read reads, c.verdictSoFar? seen = none →
      motive p (seen ++ read) reads → motive p seen (read :: reads))
    (stop : ∀ p seen reads, c.verdictSoFar? seen = some .unmatchable →
      motive p seen reads)
    (pass : ∀ p seen reads length role pos,
        c.verdictSoFar? seen = some (.piece length role pos) →
        motive (p.past (seen.take length)) (seen.drop length) reads →
        motive p seen reads)
    (p : Position) (seen : List UInt8) (reads : List (List UInt8)) :
    motive p seen reads := by
  cases decided : c.verdictSoFar? seen with
  | none =>
    cases reads with
    | nil => exact last p seen decided
    | cons next reads =>
      exact read p seen next reads decided
        (reading_induction c last read stop pass p (seen ++ next) reads)
  | some v =>
    cases v with
    | unmatchable => exact stop p seen reads decided
    | piece length role pos =>
      have := length_le_of_verdictSoFar? decided
      exact pass p seen reads length role pos decided
        (reading_induction c last read stop pass _ (seen.drop length) reads)
termination_by (reads.length, seen.length)
decreasing_by
  · subst_vars
    exact .left _ _ (Nat.lt_succ_self _)
  · exact .right _ (by rw [List.length_drop]; omega)

end Lexicon

end Lexigram
