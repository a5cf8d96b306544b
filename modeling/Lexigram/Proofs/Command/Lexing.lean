import Lexigram.Command.Run
import Lexigram.Proofs.Grammar.PlainForm
import Lexigram.Proofs.Lexis.Dispatch
import Lexigram.Proofs.Stream.WholeRuns

/-!
The command that lexes. What it prints and how it ends depends on the run of its
lexer alone (`lex_of_ok`), not on whether a worker does the lexing. It prints a
line for each token up to the result that it stops at: the last, or an invalid
token that is not skipped (`lex_stable`).
-/

namespace Lexigram

/-! ## Lines -/

namespace Text

theorem hexDigit_ne_newline : ∀ d < 16, hexDigit d ≠ '\n' := by
  decide

theorem newline_not_mem_hexDigits (n : Nat) : '\n' ∉ hexDigits n := by
  induction n using Nat.strongRecOn with
  | ind n ih =>
    rw [hexDigits]
    split
    · next small => simpa using (hexDigit_ne_newline n small).symm
    · have digit := hexDigit_ne_newline (n % 16) (Nat.mod_lt n (by decide))
      have others := ih (n / 16) (by omega)
      simpa using ⟨others, digit.symm⟩

theorem newline_not_mem_escape (c : Char) : '\n' ∉ escape '"' c := by
  by_cases newline : c = '\n'
  · subst newline
    decide
  · have apart : '\n' ≠ c := fun same => newline same.symm
    have digits := newline_not_mem_hexDigits c.toNat
    unfold escape
    split_ifs <;> simp [apart, digits]

/-- A quoted text stands on one line. -/
theorem newline_not_mem_quoted (s : String) : '\n' ∉ (quoted s).toList := by
  intro mem
  simp only [quoted, String.toList_ofList,
    List.mem_append, List.mem_flatMap] at mem
  rcases mem with (mem | ⟨c, -, mem⟩) | mem
  · exact absurd mem (by decide)
  · exact newline_not_mem_escape c mem
  · exact absurd mem (by decide)

end Text

/-- The kinds of tokens have names of symbols. -/
theorem Grammar.name_of_mem_tokenKinds {g : Grammar} {reserved : Reserved}
    {kind : TokenKind} (mem : kind ∈ g.tokenKinds reserved) :
    kind.name ∈ g.names := by
  obtain ⟨id, -, made⟩ := List.mem_filterMap.mp mem
  split at made
  · next symbol found =>
    split at made
    · cases made
    · cases made
      exact List.mem_map.mpr ⟨symbol, List.mem_of_getElem? found, rfl⟩
  · cases made

theorem Lexicon.kinds_numberGroups (next : Nat) (rules : List LexicalRule) :
    (numberGroups next rules).1.map (·.2) = rules.map (·.kind) := by
  induction rules generalizing next with
  | nil => rfl
  | cons r rules ih =>
    exact congrArg (r.kind :: ·) (ih (next + 1 + r.innerGroups))

/-- The groups of a lexicon stand for the kinds of tokens of its grammar. -/
theorem Lexicon.kind_of_mem_tokenGroups {g : Grammar} {options : LexiconOptions}
    {c : Lexicon} (made : ofGrammar g options = .ok c) {group : Nat}
    {kind : TokenKind} (mem : (group, kind) ∈ c.tokenGroups) :
    kind ∈ g.tokenKinds options.reserved := by
  obtain ⟨p, parts, whole⟩ := of_ofGrammar made
  obtain ⟨-, -, -, groups, -⟩ := LexiconParts.compile_of_lexicon whole
  rw [← parts.kinds, ← kinds_numberGroups 1 p.rules]
  exact List.mem_map_of_mem (groups ▸ mem)

namespace Command

/-! ## Results in a row -/

namespace Feed

/-- What `n` requests in a row give. -/
def results (feed : Feed) : (n : Nat) → List LexResult
  | 0 => []
  | n + 1 => feed.next.2.1 :: results feed.next.1 n

theorem results_direct {l : Lexer} (alive : Chunk.death ∉ l.source) (n : Nat) :
    (direct l).results n = l.answers n := by
  induction n generalizing l with
  | zero => rfl
  | succ n ih =>
    cases gives : l.next.result with
    | none => exact absurd (Lexer.mem_death_of_next gives) alive
    | some r =>
      have next : (direct l).next =
          (direct l.next.lexer, r, l.next.trace.records) := by
        simp [Feed.next, gives]
      rw [results, next, Lexer.answers, gives]
      exact congrArg (r :: ·) (ih (Lexer.not_mem_death_next alive))

/-- A pipeline gives what is due from it. -/
theorem results_piped {p : Pipeline} (sound : Session.Sound ⟨p, false⟩)
    (n : Nat) :
    (piped p).results n = p.due n := by
  induction n generalizing p with
  | zero => exact p.due_zero.symm
  | succ n ih =>
    obtain ⟨events, one, run⟩ := Session.exists_run_next sound
    have later := run.sound sound
    have due := run.due n
    rw [one, List.length_singleton, Nat.add_comm] at due
    -- what has been logged makes no difference to what is due
    have others : (piped { p.next.1 with log := [] }).results n
        = p.next.1.due n :=
      ih (Session.Sound.of_not_waiting later.room later.bounded)
    rw [due]
    exact congrArg (p.next.2 :: ·) others

end Feed

/-! ## Printing -/

/-- Whether printing goes on after a result. -/
def goesOn (skipInvalid : Bool) : LexResult → Bool
  | .ok _ => true
  | .error e => skipInvalid && e.isRecoverable

/-- What is printed for a result: a line for a token. -/
def lineOf : LexResult → List Char
  | .ok token =>
    (token.kind.name ++ " " ++ Text.quoted token.text ++ "\n").toList
  | .error _ => []

/-- Why printing fails where it stops at a result: at the end of the stream it
does not. -/
def failureAt : LexResult → Option String
  | .ok _ => none
  | .error .endOfStream => none
  | .error e => some (lexFailure e)

/-- What is printed of results in a row. -/
def printed (skipInvalid : Bool) (results : List LexResult) : List Char :=
  (results.takeWhile (goesOn skipInvalid)).flatMap lineOf

/-- The failure that results in a row end in. -/
def failureOfRun (skipInvalid : Bool) (results : List LexResult) :
    Option String :=
  (results.find? fun r => !goesOn skipInvalid r).bind failureAt

theorem printTokens_succ (skipInvalid : Bool) (feed : Feed) (limit : Nat) :
    (printTokens skipInvalid feed (limit + 1)).output
        = (if goesOn skipInvalid feed.next.2.1 then
            lineOf feed.next.2.1
              ++ (printTokens skipInvalid feed.next.1 limit).output
          else []) ∧
      (printTokens skipInvalid feed (limit + 1)).failure
        = (if goesOn skipInvalid feed.next.2.1 then
            (printTokens skipInvalid feed.next.1 limit).failure
          else failureAt feed.next.2.1) := by
  rw [printTokens]
  rcases feed.next with ⟨feed', e | token, records⟩
  · by_cases goes : (skipInvalid && e.isRecoverable) = true
    · cases e with
      | invalidToken position text => simp [goesOn, goes, lineOf, Report.after]
      | endOfStream => simp [LexError.isRecoverable] at goes
      | unmatchable position snippet => simp [LexError.isRecoverable] at goes
      | readFailed f => simp [LexError.isRecoverable] at goes
      | workerLost => simp [LexError.isRecoverable] at goes
    · cases e <;> simp [goesOn, goes, failureAt, Report.after,
        Report.failed, Report.success]
  · exact ⟨rfl, rfl⟩

/-- Printing depends on the results alone. -/
theorem printTokens_eq (skipInvalid : Bool) (feed : Feed) (limit : Nat) :
    (printTokens skipInvalid feed limit).output
      = printed skipInvalid (feed.results limit) ∧
      (printTokens skipInvalid feed limit).failure
      = failureOfRun skipInvalid (feed.results limit) := by
  induction limit generalizing feed with
  | zero => exact ⟨rfl, rfl⟩
  | succ limit ih =>
    obtain ⟨output, failure⟩ := ih feed.next.1
    obtain ⟨output', failure'⟩ := printTokens_succ skipInvalid feed limit
    rw [output', failure', output, failure, Feed.results]
    by_cases goes : goesOn skipInvalid feed.next.2.1 = true
    · simp [printed, failureOfRun, goes]
    · simp [printed, failureOfRun, goes]

/-! ## Where printing stops -/

/-- Whether a result is an invalid token. -/
def isInvalid : LexResult → Bool
  | .ok _ => false
  | .error e => e.isRecoverable

section

variable {skipInvalid : Bool} {r last : LexResult}
  {before results : List LexResult}

/-- Printing stops at a last result, and at an invalid token that is not
skipped. -/
theorem goesOn_eq (skipInvalid : Bool) (r : LexResult) :
    goesOn skipInvalid r = (!r.isLast && (skipInvalid || !isInvalid r)) := by
  rcases r with e | token
  · cases skipInvalid <;> cases h : e.isRecoverable
      <;> simp [goesOn, LexResult.isLast, isInvalid, h]
  · cases skipInvalid <;> rfl

theorem isInvalid_of_isLast (ends : r.isLast = true) : isInvalid r = false := by
  rcases r with e | token
  · simpa [LexResult.isLast, isInvalid] using ends
  · rfl

theorem printed_cons (skipInvalid : Bool) (r : LexResult)
    (results : List LexResult) :
    printed skipInvalid (r :: results)
      = if goesOn skipInvalid r then lineOf r ++ printed skipInvalid results
        else [] := by
  by_cases goes : goesOn skipInvalid r = true
  · simp [printed, goes]
  · simp [printed, goes]

theorem failureOfRun_cons (skipInvalid : Bool) (r : LexResult)
    (results : List LexResult) :
    failureOfRun skipInvalid (r :: results) =
      if goesOn skipInvalid r then failureOfRun skipInvalid results
      else failureAt r := by
  by_cases goes : goesOn skipInvalid r = true
  · simp [failureOfRun, goes]
  · simp [failureOfRun, goes]

/-- What comes behind a last result makes no difference. -/
theorem printed_append (skipInvalid : Bool)
    (ends : ∃ r ∈ results, r.isLast = true) (more : List LexResult) :
    printed skipInvalid (results ++ more) = printed skipInvalid results ∧
      failureOfRun skipInvalid (results ++ more)
      = failureOfRun skipInvalid results := by
  induction results with
  | nil =>
    obtain ⟨r, mem, -⟩ := ends
    cases mem
  | cons r results ih =>
    rw [List.cons_append]
    simp only [printed_cons, failureOfRun_cons]
    by_cases goes : goesOn skipInvalid r = true
    · -- the last result is another one
      have others : ∃ r ∈ results, r.isLast = true := by
        obtain ⟨r', mem, last⟩ := ends
        rcases List.mem_cons.mp mem with rfl | mem
        · rw [goesOn_eq, last] at goes
          cases goes
        · exact ⟨r', mem, last⟩
      rw [if_pos goes, if_pos goes, if_pos goes, if_pos goes, (ih others).1,
        (ih others).2]
      exact ⟨rfl, rfl⟩
    · rw [if_neg goes, if_neg goes, if_neg goes, if_neg goes]
      exact ⟨rfl, rfl⟩

/-- Skipping invalid tokens adds to what is printed. -/
theorem printed_prefix (results : List LexResult) :
    printed false results <+: printed true results := by
  induction results with
  | nil => exact List.prefix_rfl
  | cons r results ih =>
    rw [printed_cons, printed_cons]
    rcases r with e | token
    · exact List.nil_prefix
    · exact (List.prefix_append_right_inj _).mpr ih

/-- Where no token is invalid there is nothing to skip. -/
theorem printed_of_valid (valid : ∀ r ∈ results, isInvalid r = false) :
    printed false results = printed true results ∧
      failureOfRun false results = failureOfRun true results := by
  induction results with
  | nil => exact ⟨rfl, rfl⟩
  | cons r results ih =>
    obtain ⟨here, others⟩ := List.forall_mem_cons.mp valid
    have same : goesOn false r = goesOn true r := by
      rw [goesOn_eq, goesOn_eq, here]
      rfl
    rw [printed_cons, printed_cons, failureOfRun_cons, failureOfRun_cons, same,
      (ih others).1, (ih others).2]
    exact ⟨rfl, rfl⟩

/-- A run ends without a failure if it comes to the end of the stream and no
invalid token is in the way. -/
theorem failureOfRun_eq_none_iff (going : ∀ r ∈ before, r.isLast = false)
    (ends : last.isLast = true) :
    failureOfRun skipInvalid (before ++ [last]) = none ↔
      last = .error .endOfStream ∧
      (skipInvalid = true ∨ ∀ r ∈ before ++ [last], isInvalid r = false) := by
  induction before with
  | nil =>
    have stops : goesOn skipInvalid last = false := by
      rw [goesOn_eq, ends]
      rfl
    have valid : ∀ r ∈ [last], isInvalid r = false :=
      List.forall_mem_singleton.mpr (isInvalid_of_isLast ends)
    rw [List.nil_append, failureOfRun_cons, stops, and_iff_left (.inr valid)]
    rcases last with e | token
    · cases e <;> simp [failureAt]
    · cases ends
  | cons r before ih =>
    obtain ⟨here, others⟩ := List.forall_mem_cons.mp going
    rw [List.cons_append, failureOfRun_cons, List.forall_mem_cons,
      goesOn_eq, here]
    cases invalid : isInvalid r with
    | false =>
      have goes : (!false && (skipInvalid || !false)) = true := by simp
      rw [if_pos goes, ih others, and_iff_right rfl]
    | true =>
      cases skipInvalid with
      | true => simpa using ih others
      | false =>
        rcases r with e | token
        · cases e <;> simp [isInvalid, LexError.isRecoverable, failureAt]
            at invalid ⊢
        · cases invalid

end

/-! ## Reports -/

/-- A command that lexes with the lexicon `c`: the grammar in its file is read
and made plain, and has this lexicon. -/
def Loads (env : Environment) (grammar : String) (fallback : Bool)
    (c : Lexicon) : Prop :=
  ∃ text g h, readText env grammar = .ok text ∧
    Grammar.ofText? text.toList = .ok g ∧ g.plain .right = .ok h ∧
    Lexicon.ofGrammar h ⟨fallback, .default⟩ = .ok c

section

variable {env : Environment} {grammar : String} {fallback : Bool} {c : Lexicon}
  {input : Option String} {bufferSize : Nat} {source : Source}

/-- A command that has loaded its lexicon does the rest with it, but for the
log. -/
theorem withLexicon_eq (loads : Loads env grammar fallback c)
    (body : Lexicon → Report) :
    (withLexicon env grammar fallback body).output = (body c).output ∧
      (withLexicon env grammar fallback body).failure = (body c).failure := by
  obtain ⟨text, g, h, found, read, plain, made⟩ := loads
  obtain ⟨definitions, result, rfl⟩ :=
    Grammar.ofText?_eq_ok_iff_ofDefinitions.mp read
  have flattened : ((Grammar.ofDefinitions definitions).flatten .right).result
    = .ok h := plain
  simp only [withLexicon, withGrammar, withPlain, found, result,
    flattened, made]
  exact ⟨rfl, rfl⟩

/-- What a command lexes does not end its thread. -/
theorem not_mem_death_sourceOf
    (opened : sourceOf env input bufferSize = .ok source) :
    Chunk.death ∉ source := by
  cases input with
  | none =>
    cases opened
    rw [inputSource]
    split
    · simp
    · simp
  | some path =>
    simp only [sourceOf] at opened
    split at opened
    · cases opened
      simp
    · cases opened
    · cases opened
      simp

/-- The results that the command prints are those of the run of its lexer,
whoever does the lexing. -/
theorem results_feed (c : Lexicon) (bufferSize : Nat)
    (alive : Chunk.death ∉ source) (threaded : Bool) :
    let l := Lexer.new c source bufferSize
    let feed : Feed :=
      if threaded then .piped (.new l Feed.queueCapacity) else .direct l
    ∃ more, feed.results feed.enoughResults = l.run ++ more := by
  intro l feed
  have settled : l.Settled := Lexer.settled_new c source bufferSize
  obtain ⟨before, last, -, -, answers⟩ := Lexer.exists_run settled alive
  cases threaded with
  | false =>
    obtain ⟨k, same⟩ := answers l.enoughTurns (Nat.le_refl _)
    exact ⟨_, (Feed.results_direct alive _).trans same⟩
  | true =>
    have enough : l.enoughTurns
      ≤ (Pipeline.new l Feed.queueCapacity).enoughResults := Nat.le_add_left _ _
    obtain ⟨k, same⟩ := answers _ enough
    exact ⟨_,
      (Feed.results_piped (Session.sound_new l Feed.queueCapacity) _).trans
      ((congrFun (Pipeline.due_new l Feed.queueCapacity) _).trans same)⟩

/-- What the command does once it has its lexicon. -/
def lexing (env : Environment) (input : Option String) (bufferSize : Nat)
    (threaded skipInvalid : Bool) (c : Lexicon) : Report :=
  match sourceOf env input bufferSize with
  | .error message => .failed message
  | .ok source =>
    let lexer := Lexer.new c source bufferSize
    let feed : Feed :=
      if threaded then .piped (.new lexer Feed.queueCapacity) else .direct lexer
    printTokens skipInvalid feed feed.enoughResults

/-- If its input cannot be opened the command fails before it prints. -/
theorem lex_of_error (loads : Loads env grammar fallback c)
    {message : String} (opened : sourceOf env input bufferSize = .error message)
    (threaded skipInvalid : Bool) :
    let report :=
      run env (.lex grammar input bufferSize threaded fallback skipInvalid)
    report.output = [] ∧ report.failure = some message := by
  have failed : lexing env input bufferSize threaded skipInvalid c
    = .failed message := by rw [lexing, opened]
  obtain ⟨output, failure⟩ :=
    withLexicon_eq loads (lexing env input bufferSize threaded skipInvalid)
  rw [failed] at output failure
  exact ⟨output, failure⟩

theorem lexing_of_ok (opened : sourceOf env input bufferSize = .ok source)
    (threaded skipInvalid : Bool) :
    let report := lexing env input bufferSize threaded skipInvalid c
    report.output = printed skipInvalid (Lexer.new c source bufferSize).run ∧
      report.failure = failureOfRun skipInvalid
      (Lexer.new c source bufferSize).run := by
  intro report
  have alive := not_mem_death_sourceOf opened
  obtain ⟨before, last, whole, shape, -⟩ :=
    Lexer.exists_run (Lexer.settled_new c source bufferSize) alive
  obtain ⟨more, results⟩ := results_feed c bufferSize alive threaded
  have ends : ∃ r ∈ (Lexer.new c source bufferSize).run, r.isLast = true :=
    ⟨last, by simp [whole], shape.2⟩
  obtain ⟨same, same'⟩ := printed_append skipInvalid ends more
  rw [← results] at same same'
  simp only [report, lexing, opened]
  exact ⟨(printTokens_eq _ _ _).1.trans same,
    (printTokens_eq _ _ _).2.trans same'⟩

/-- What the command prints and how it ends depends on the run of its lexer
alone, if its input can be opened. -/
theorem lex_of_ok (loads : Loads env grammar fallback c)
    (opened : sourceOf env input bufferSize = .ok source)
    (threaded skipInvalid : Bool) :
    let report :=
      run env (.lex grammar input bufferSize threaded fallback skipInvalid)
    report.output = printed skipInvalid (Lexer.new c source bufferSize).run ∧
      report.failure = failureOfRun skipInvalid
      (Lexer.new c source bufferSize).run := by
  intro report
  obtain ⟨output, failure⟩ :=
    withLexicon_eq loads (lexing env input bufferSize threaded skipInvalid)
  obtain ⟨output', failure'⟩ :=
    lexing_of_ok (c := c) opened threaded skipInvalid
  exact ⟨output.trans output', failure.trans failure'⟩

/-- What is printed for a token is one line. -/
theorem exists_lineOf_eq (loads : Loads env grammar fallback c)
    {token : StreamToken}
    (mem : .ok token ∈ (Lexer.new c source bufferSize).run) :
    ∃ line, lineOf (.ok token) = line ++ ['\n'] ∧ '\n' ∉ line := by
  obtain ⟨text, g, h, -, read, plain, made⟩ := loads
  obtain ⟨group, listed⟩ :=
    Lexer.kind_of_mem_run (Lexer.settled_new c source bufferSize) mem
  have named := (Grammar.tidy_plain (Grammar.tidy_of_ofText? read) plain).named
    _ (Grammar.name_of_mem_tokenKinds
      (Lexicon.kind_of_mem_tokenGroups made listed))
  have name : '\n' ∉ token.kind.name.toList :=
    fun mem => absurd (named.2 _ mem) (by decide)
  refine ⟨token.kind.name.toList ++ ' ' :: (Text.quoted token.text).toList,
    ?_, ?_⟩
  · simp [lineOf]
  · simp [name, Text.newline_not_mem_quoted]

end

/-! ## The flags -/

/-- The line that a failure ends the errors of its process with. -/
def Report.errorLine (r : Report) : String :=
  r.failure.elim "" fun message => "error: " ++ message ++ "\n"

theorem Report.exists_errors_eq (r : Report) (rank : Nat) :
    ∃ log, (r.exit rank).errors = log ++ r.errorLine := by
  have ends (lines : List String) (line : String) :
      String.join (lines ++ [line]) = String.join lines ++ line := by
    rw [← String.toList_inj]
    simp [String.toList_join]
  cases failure : r.failure with
  | none => exact ⟨(r.exit rank).errors, by simp [errorLine, failure]⟩
  | some message =>
    simp only [exit, errorLine, failure, Option.toList_some, List.map_cons,
      List.map_nil, ends, Option.elim_some]
    exact ⟨_, rfl⟩

/-- Whether reports are the same but for their logs. -/
structure Report.Agrees (r r' : Report) : Prop where
  output : r.output = r'.output
  failure : r.failure = r'.failure
  code : ∀ rank, (r.exit rank).code = (r'.exit rank).code
  errors : ∀ rank, ∃ log log', (r.exit rank).errors = log ++ r.errorLine ∧
    (r'.exit rank).errors = log' ++ r.errorLine

/-- Whether a report is that of a run of a lexer: its output has a line for each
token up to the result that printing stops at, and its exit code tells if that
is the end of the stream. -/
structure Report.Tells (r : Report) (skipInvalid : Bool)
    (results : List LexResult) : Prop where
  output : r.output = printed skipInvalid results
  failure : r.failure = failureOfRun skipInvalid results
  code : ∀ rank, (r.exit rank).code = 0 ↔
    results.getLast? = some (.error .endOfStream) ∧
    (skipInvalid = true ∨ ∀ r ∈ results, isInvalid r = false)

theorem Report.agrees_of {r r' : Report} (output : r.output = r'.output)
    (failure : r.failure = r'.failure) :
    r.Agrees r' where
  output := output
  failure := failure
  code rank := by rw [exit, exit, failure]
  errors rank := by
    obtain ⟨log, here⟩ := r.exists_errors_eq rank
    obtain ⟨log', there⟩ := r'.exists_errors_eq rank
    have line : r'.errorLine = r.errorLine := by
      rw [errorLine, errorLine, failure]
    exact ⟨log, log', here, line ▸ there⟩

theorem Report.code_eq_zero_iff (r : Report) (rank : Nat) :
    (r.exit rank).code = 0 ↔ r.failure = none := by
  cases failure : r.failure <;> simp [exit, failure]

theorem Report.tells_of {r : Report}
    {skipInvalid : Bool} {before : List LexResult} {last : LexResult}
    (front : ∀ r ∈ before, r.isLast = false) (ends : last.isLast = true)
    (told : r.output = printed skipInvalid (before ++ [last]) ∧
      r.failure = failureOfRun skipInvalid (before ++ [last])) :
    r.Tells skipInvalid (before ++ [last]) where
  output := told.1
  failure := told.2
  code rank := by
    rw [code_eq_zero_iff, told.2, failureOfRun_eq_none_iff front ends,
      List.getLast?_concat, Option.some.injEq]

/-- **The flags do not change what is lexed.** With a lexicon that was loaded,
on any input and with any size of its buffer, the command prints the same and
ends in the same way whether or not a worker does the lexing, and skipping
invalid tokens adds to its output. What it prints and how it ends is told by the
run of its lexer, which is also what every consumer gets from a worker. -/
theorem lex_stable {env : Environment} {grammar : String} {fallback : Bool}
    {c : Lexicon} (loads : Loads env grammar fallback c) (input : Option String)
    (bufferSize : Nat) :
    let report (threaded skipInvalid : Bool) :=
      run env (.lex grammar input bufferSize threaded fallback skipInvalid)
    (∀ skipInvalid,
        (report true skipInvalid).Agrees (report false skipInvalid)) ∧
      (∀ threaded,
        (report threaded false).output <+: (report threaded true).output) ∧
      ((∃ message, sourceOf env input bufferSize = .error message ∧
          ∀ threaded skipInvalid, (report threaded skipInvalid).output = [] ∧
            (report threaded skipInvalid).failure = some message) ∨
        ∃ source, sourceOf env input bufferSize = .ok source ∧
          let l := Lexer.new c source bufferSize
          (∃ before last, l.run = before ++ [last] ∧
            (∀ r ∈ before, r.isLast = false) ∧ last.isLast = true) ∧
          (∀ threaded skipInvalid,
            (report threaded skipInvalid).Tells skipInvalid l.run) ∧
          ((∀ r ∈ l.run, isInvalid r = false) → ∀ threaded,
            (report threaded false).Agrees (report threaded true)) ∧
          (∀ token, .ok token ∈ l.run →
            ∃ line, lineOf (.ok token) = line ++ ['\n'] ∧ '\n' ∉ line) ∧
          ∀ events s, Session.Run (Session.new l Feed.queueCapacity) events s →
            ∃ k last, last ∈ l.run.getLast? ∧
              received events <+: l.run ++ List.replicate k last) := by
  intro report
  cases opened : sourceOf env input bufferSize with
  | error message =>
    have unopened (threaded skipInvalid : Bool) :=
      lex_of_error loads opened threaded skipInvalid
    refine ⟨fun skipInvalid => ?_, fun threaded => ?_,
      .inl ⟨message, rfl, unopened⟩⟩
    · obtain ⟨output, failure⟩ := unopened true skipInvalid
      obtain ⟨output', failure'⟩ := unopened false skipInvalid
      exact Report.agrees_of (output.trans output'.symm)
        (failure.trans failure'.symm)
    · rw [(unopened threaded false).1]
      exact List.nil_prefix
  | ok source =>
    have told (threaded skipInvalid : Bool) :=
      lex_of_ok loads opened threaded skipInvalid
    have settled := Lexer.settled_new c source bufferSize
    have alive := not_mem_death_sourceOf opened
    obtain ⟨before, last, whole, shape, -⟩ := Lexer.exists_run settled alive
    refine ⟨fun skipInvalid => ?_, fun threaded => ?_, .inr ⟨source,
      rfl, ⟨before, last, whole, shape⟩, fun threaded skipInvalid => ?_,
      fun valid threaded => ?_, fun token mem => exists_lineOf_eq loads mem,
      fun events s steps => Session.exists_received_prefix settled alive steps⟩⟩
    · obtain ⟨output, failure⟩ := told true skipInvalid
      obtain ⟨output', failure'⟩ := told false skipInvalid
      exact Report.agrees_of (output.trans output'.symm)
        (failure.trans failure'.symm)
    · rw [(told threaded false).1, (told threaded true).1]
      exact printed_prefix _
    · rw [whole]
      exact Report.tells_of shape.1 shape.2 (whole ▸ told threaded skipInvalid)
    · obtain ⟨output, failure⟩ := told threaded false
      obtain ⟨output', failure'⟩ := told threaded true
      obtain ⟨same, same'⟩ := printed_of_valid valid
      exact Report.agrees_of (output.trans (same.trans output'.symm))
        (failure.trans (same'.trans failure'.symm))

/-- A grammar with one token in a file, and a text that has something else in
it. -/
def letters : Environment where
  file path := .content
    (Text.bytesOf (if path = "letters" then "<a> := \"a\" ;" else "ab a"))
  input := []

/-- The grammar in the file. -/
def letterGrammar : Grammar where
  symbols := [⟨"a", false⟩]
  rules := [(0, [[.literal "a"]])]
  parameters := []
  start := none

/-- The command finds an invalid token on its way to the end of the text, which
it has to skip. -/
theorem lex_letters : ∃ c, Loads letters "letters" true c ∧
    (∀ skipInvalid, (run letters
        (.lex "letters" (some "text") 3 true true skipInvalid)).Agrees
      (run letters (.lex "letters" (some "text") 3 false true skipInvalid))) ∧
    ∀ threaded, ((run letters (.lex "letters" (some "text") 3 threaded
        true true)).exit 0).code = 0 ∧
      ((run letters (.lex "letters" (some "text") 3 threaded
        true false)).exit 0).code ≠ 0 := by
  have text : readText letters "letters" = .ok "<a> := \"a\" ;" :=
    ok_of_toOption (by decide +kernel)
  have read : Grammar.ofText? "<a> := \"a\" ;".toList = .ok letterGrammar :=
    ok_of_toOption (by decide +kernel)
  have plain : letterGrammar.plain .right = .ok letterGrammar :=
    ok_of_toOption (by decide +kernel)
  obtain ⟨c, made, ends, invalid⟩ : ∃ c,
      Lexicon.ofGrammar letterGrammar ⟨true, .default⟩ = .ok c ∧
      (Lexer.new c [.bytes (Text.bytesOf "ab a")] 3).run.getLast?
      = some (.error .endOfStream) ∧
      (Lexer.new c [.bytes (Text.bytesOf "ab a")] 3).run.any isInvalid = true :=
    Lexicon.exists_of_ofGrammar (by decide +kernel)
  have loads : Loads letters "letters" true c :=
    ⟨_, _, _, text, read, plain, made⟩
  have opened : sourceOf letters (some "text") 3
    = .ok [.bytes (Text.bytesOf "ab a")] := rfl
  obtain ⟨agrees, -, unopened | ⟨source, same, -, tells, -⟩⟩ :=
    lex_stable loads (some "text") 3
  · obtain ⟨message, same, -⟩ := unopened
    cases opened.symm.trans same
  · cases opened.symm.trans same
    obtain ⟨r, mem, bad⟩ := List.any_eq_true.mp invalid
    refine ⟨c, loads, agrees, fun threaded => ⟨?_, fun zero => ?_⟩⟩
    · exact ((tells threaded true).code 0).mpr ⟨ends, .inl rfl⟩
    · rcases (((tells threaded false).code 0).mp zero).2 with skips | valid
      · cases skips
      · cases bad.symm.trans (valid r mem)

end Command

end Lexigram
