import Lexigram.Proofs.Stream.Recovery
import Lexigram.Proofs.Text.Encoding

/-!
Tokens are texts of their rules. The master pattern finds a token in a window on
the input, in a group that is numbered among all others; the rule of the token
by itself matches all its bytes (`Lexer.tokens_match_whole`). That takes
patterns that do not look around, for which the bytes in front and behind are of
no account, and groups that are all counted, for else a match may be taken for
that of another rule (`groupPassedOver_mistaken`).
-/

namespace Lexigram

open Pattern (Compiled Match Progress Expr Winner)

section

variable {g : Grammar} {options : LexiconOptions} {p : LexiconParts}
  {c : Lexicon}

/-! ## The rule of a match -/

/-- If the groups of all token rules are counted, so are those in front of
each. -/
theorem Lexicon.countsBefore_of_rules
    (counts : ∀ r ∈ c.rules, Pattern.CountsGroups r.fragment) {n : Nat}
    (tokens : n ≤ c.rules.length) : c.CountsBefore n := by
  intro a mem
  rw [alternatives, List.take_append_of_le_length (by simpa using tokens)]
    at mem
  obtain ⟨r, listed, rfl⟩ := List.mem_map.mp (List.mem_of_mem_take mem)
  exact counts r listed

/-- The alternatives that stand for tokens are the token rules. -/
theorem Lexicon.of_getElem?_alternatives {i : Nat}
    {kind : TokenKind} {pattern : String}
    (here : c.alternatives[i]? = some (.token kind, pattern)) :
    i < c.rules.length ∧ ∃ r ∈ c.rules, r.kind = kind ∧
      r.fragment = pattern := by
  by_cases token : i < c.rules.length
  · rw [alternatives, List.getElem?_append_left (by simpa using token),
      List.getElem?_map] at here
    obtain ⟨r, place, same⟩ := Option.map_eq_some_iff.mp here
    cases same
    exact ⟨token, r, List.mem_of_getElem? place, rfl, rfl⟩
  · rw [alternatives, List.getElem?_append_right (by simpa using token)] at here
    have other := List.mem_of_getElem? here
    rw [List.mem_cons] at other
    split at other <;> simp at other

/-- A match that stands for a token is that of a rule of its kind. -/
theorem LexiconParts.exists_rule_of_classify {qs : List Progress}
    (readers : List.Forall₂ ReadsTo p.counted qs) (whole : p.lexicon = .ok c)
    (counts : ∀ r ∈ c.rules, Pattern.CountsGroups r.fragment)
    {text : List UInt8} {m : Match} {i : Nat}
    {q : Progress} (winner : Winner qs text m.start m i q) {kind : TokenKind}
    (named : c.classify m = some (.token kind)) :
    ∃ r ∈ c.rules, r.kind = kind ∧
      c.alternatives[i]? = some (.token kind, r.fragment) := by
  rw [Lexicon.classify_eq] at named
  obtain ⟨⟨group, role⟩, found, rfl⟩ := Option.map_eq_some_iff.mp named
  obtain ⟨fills, j, inside, entry, -⟩ := List.find?_eq_some_iff_getElem.mp found
  have there : c.outerGroups[j]? = some (group, .token kind) :=
    List.getElem?_eq_some_iff.mpr ⟨inside, entry⟩
  obtain ⟨⟨-, pattern⟩, place, rfl⟩ :=
    Option.map_eq_some_iff.mp (of_getElem?_outerGroups whole there).2
  obtain ⟨token, r, listed, own, rfl⟩ := Lexicon.of_getElem?_alternatives place
  have busy : m.group? group ≠ none := by
    intro idle
    rw [Pattern.Match.fills_of_none idle] at fills
    cases fills
  -- the groups of all token rules but the one that was matched take no part
  rcases Nat.lt_trichotomy j i with before | rfl | behind
  · have front := Lexicon.countsBefore_of_rules counts (Nat.le_of_lt token)
    exact absurd (group_in_front readers whole winner front before there) busy
  · exact ⟨r, listed, own, place⟩
  · have here := Lexicon.countsBefore_of_rules counts
      (Nat.le_trans behind (Nat.le_of_lt token))
    exact absurd (group_behind readers whole winner here behind there) busy

/-! ## The texts of a rule -/

/-- What a pattern without anchors matches somewhere it matches by itself
between anchors. -/
theorem Pattern.matchesIn_of_matchAt? {pattern : String} {own whole : Compiled}
    (free : AnchorFree pattern) (alone : Compiled.ofText? pattern = .ok own)
    (between : Compiled.ofText? (anchored pattern) = .ok whole)
    {text : List UInt8} {m : Match} (found : own.matchAt? text 0 = some m) :
    whole.matchesIn (text.take m.stop) = true := by
  obtain ⟨e, anchorless, rfl, rfl⟩ := free.exists_expr alone between
  obtain ⟨-, here⟩ := Compiled.matches_of_matchAt? (Nat.zero_le _) found
  obtain ⟨-, word⟩ :=
    (Expr.localTo_language anchorless text 0 (Nat.zero_le _) m.stop).mp here
  have front : Pattern.between text 0 m.stop = text.take m.stop := by
    rw [Pattern.between, List.drop_zero, Nat.sub_zero]
  rw [front] at word
  exact Compiled.matchesIn_whole_iff.mpr
    ((Expr.matches_whole_iff anchorless _).mpr word)

/-- Whether bytes are a token of a kind: a rule of this kind matches them as a
whole, and if they encode a text, this is the text of the token, and one that
the rule matches as a whole. -/
def Lexicon.IsToken (c : Lexicon) (kind : TokenKind)
    (bytes : List UInt8) : Prop :=
  ∃ r ∈ c.rules, r.kind = kind ∧ r.whole.matchesIn bytes = true ∧
    ∀ text, bytes = Text.bytesOf text →
    Text.lossy bytes = text ∧ r.matchesWhole text = true

/-- A piece that is judged to be a token is one. -/
theorem Lexicon.isToken_of_judged (made : ofGrammar g options = .ok c)
    (alone : ∀ r ∈ c.rules, ∃ own, Compiled.ofText? r.fragment = .ok own)
    (free : ∀ r ∈ c.rules, Pattern.AnchorFree r.fragment)
    (counts : ∀ r ∈ c.rules, Pattern.CountsGroups r.fragment)
    {piece : Piece} {kind : TokenKind} (judged : piece.Judged c)
    (token : piece.role = .token kind) :
    c.IsToken kind piece.bytes := by
  obtain ⟨p, parts, whole⟩ := of_ofGrammar made
  obtain ⟨-, rules, -⟩ := LexiconParts.compile_of_lexicon whole
  obtain ⟨qs, readers⟩ := LexiconParts.exists_readers parts (rules ▸ alone)
  obtain ⟨text, m, found, start, named, bytes⟩ :=
    judged.2 (by rw [token]; nofun)
  rw [token] at named
  obtain ⟨i, q, winner, -⟩ := LexiconParts.exists_winner readers whole found
  obtain ⟨r, listed, own, place⟩ :=
    LexiconParts.exists_rule_of_classify readers whole counts winner named
  obtain ⟨a, same, compiled⟩ :=
    exists_getElem?_of_forall₂ (readAs_of_readers readers whole) winner.place
  obtain rfl := Option.some.inj (place.symm.trans same)
  obtain ⟨m', here, groups⟩ := winner.own
  rw [start] at here
  -- the rule stops where the whole match does
  have stops : m'.stop = m.stop := by
    rw [Match.stop, Match.stop, winner.whole,
      ← groups 0 (Nat.zero_le _), Nat.add_zero]
  have between := (Grammar.of_tokenRule (parts.rules r (rules ▸ listed))).2.2.1
  have full :=
    Pattern.matchesIn_of_matchAt? (free r listed) compiled between here
  rw [stops, ← bytes] at full
  refine ⟨r, listed, own, full, fun text encodes => ?_⟩
  rw [encodes] at full ⊢
  exact ⟨Text.lossy_bytesOf text, full⟩

/-- **Every token is a token of its rule.** The bytes that requests consume are
pieces, of which those for tokens are each matched as a whole by the rule of
their kind, the only one under its id if the rules of the grammar are in order.
That is so for every source, buffer size and number of requests if the fragments
are patterns by themselves, without anchors, whose groups are all counted. -/
theorem Lexer.tokens_match_whole (made : Lexicon.ofGrammar g options = .ok c)
    (alone : ∀ r ∈ c.rules, ∃ own, Compiled.ofText? r.fragment = .ok own)
    (free : ∀ r ∈ c.rules, Pattern.AnchorFree r.fragment)
    (counts : ∀ r ∈ c.rules, Pattern.CountsGroups r.fragment) (source : Source)
    (bufferSize n : Nat) :
    (g.rules.Ordered → (c.rules.map (·.kind.id)).Nodup) ∧
      ∃ pieces : List Piece,
        source.Serves (((new c source bufferSize).requests n).flatMap
            (·.trace.reads)) (Piece.content pieces
            ++ ((new c source bufferSize).afterRequests n).window.filled)
            ((new c source bufferSize).afterRequests n).source
          ∧ tokenResults (((new c source bufferSize).requests n).map (·.result))
          = Piece.results .start pieces
          ∧ ∀ piece ∈ pieces, ∀ kind, piece.role = .token kind →
          c.IsToken kind piece.bytes := by
  have settled : (new c source bufferSize).Settled := ⟨nofun, nofun⟩
  obtain ⟨pieces, accounts, results, -⟩ := exists_accounts_requests settled n
  obtain ⟨content, serves, same⟩ := accounts.conserves
  have fresh : (new c source bufferSize).window.filled = [] := rfl
  rw [fresh, List.nil_append] at same
  refine ⟨fun ordered => ?_, pieces, same ▸ serves, results.symm,
    fun piece mem kind token => ?_⟩
  · exact ((Lexicon.lists_of_ofGrammar made).ascending ordered).imp Nat.ne_of_lt
  · exact Lexicon.isToken_of_judged made alone free counts
      (accounts.judged piece mem) token

/-- The first result on a single read is the token that all its bytes decide. -/
theorem Lexer.results_of_finalVerdict {read : List UInt8}
    {n : Nat} {kind : TokenKind} {pos : 0 < n}
    (nonempty : 0 < read.length) (fits : read.length ≤ (Window.new 4096).growth)
    (undecided : c.verdictSoFar? read = none)
    (final : c.finalVerdict read nonempty = .piece n (.token kind) pos) :
    (new c [.bytes read] 4096).results 1
      = [some (.ok ⟨kind, Text.lossy (read.take n)⟩)] := by
  have fit : ∀ chunk ∈ [read], chunk ≠ [] ∧
      chunk.length ≤ (Window.new 4096).growth := by
    rw [List.forall_mem_singleton]
    exact ⟨List.ne_nil_of_length_pos nonempty, fits⟩
  refine (results_of_chunks c fit 1).trans ?_
  rw [Lexicon.lexReads_cons Lexicon.verdictSoFar?_nil, List.nil_append,
    Lexicon.lexReads_nil undecided, Lexicon.lexWhole_of_pos nonempty, final]
  rfl

end

/-! ## A group inside a token -/

/-- The group inside the first token is counted, so that a `z` is known for the
second. -/
theorem groupInside_tokens :
    ∃ c, Lexicon.ofGrammar groupInside ⟨true, .default⟩ = .ok c ∧
      (∀ r ∈ c.rules, ∃ own, Compiled.ofText? r.fragment = .ok own) ∧
      (∀ r ∈ c.rules, Pattern.AnchorFree r.fragment)
      ∧ (∀ r ∈ c.rules, Pattern.CountsGroups r.fragment) ∧
      (Lexer.new c [.bytes [122]] 4096).results 1 = [some (.ok ⟨⟨1, "b"⟩, "z"⟩)]
      ∧ (c.rules.map (·.kind.id)).Nodup ∧ ∃ pieces : List Piece,
        Lexer.tokenResults (((Lexer.new c [.bytes [122]] 4096).requests 1).map
          (·.result)) = Piece.results .start pieces ∧ ∀ piece ∈ pieces, ∀ kind,
          piece.role = .token kind → c.IsToken kind piece.bytes := by
  obtain ⟨c, made, alone, free, counts, undecided, final⟩ :
      ∃ c, Lexicon.ofGrammar groupInside ⟨true, .default⟩ = .ok c ∧
        (∀ r ∈ c.rules, ∃ own, Compiled.ofText? r.fragment = .ok own) ∧
        (∀ r ∈ c.rules, Pattern.AnchorFree r.fragment)
        ∧ (∀ r ∈ c.rules, Pattern.CountsGroups r.fragment) ∧
        c.verdictSoFar? [122] = none ∧
        c.finalVerdict [122] (by decide) = .piece 1 (.token ⟨1, "b"⟩)
        (by decide) :=
    Lexicon.exists_of_ofGrammar (by decide +kernel)
  have z : Text.lossy [122] = "z" := by
    simp [Text.lossy, Text.decodeLossy_cons_ascii, Text.decodeLossy]
  have first :=
    Lexer.results_of_finalVerdict (by decide) (by decide) undecided final
  rw [List.take_of_length_le (by decide), z] at first
  obtain ⟨ids, pieces, -, results, tokens⟩ :=
    Lexer.tokens_match_whole made alone free counts [.bytes [122]] 4096 1
  exact ⟨c, made, alone, free, counts, first,
    ids (.cons (by decide) (.cons (by decide) .nil)), pieces, results, tokens⟩

/-! ## A group that is passed over -/

/-- The grammar of three tokens, of which the first has a group that is repeated
no times at all. -/
def groupPassedOver : Grammar where
  symbols := [⟨"a", false⟩, ⟨"b", false⟩, ⟨"c", false⟩]
  rules := [(0, [[.literal "(x)\x7b0\x7da"]]), (1, [[.literal "b"]]),
    (2, [[.literal "c"]])]
  parameters := []
  start := none

/-- The group that is passed over is not counted, so that a `b` is given as a
token of the third kind, whose rule does not match it. -/
theorem groupPassedOver_mistaken :
    ∃ c, Lexicon.ofGrammar groupPassedOver ⟨false, .default⟩ = .ok c ∧
      (∀ r ∈ c.rules, ∃ own, Compiled.ofText? r.fragment = .ok own) ∧
      (∀ r ∈ c.rules, Pattern.AnchorFree r.fragment) ∧
      (Lexer.new c [.bytes [98]] 4096).results 1
      = [some (.ok ⟨⟨2, "c"⟩, "b"⟩)] ∧
      ∀ r ∈ c.rules, r.kind.id = 2 → r.matchesWhole "b" = false := by
  obtain ⟨c, made, alone, free, mistaken, undecided, final⟩ :
      ∃ c, Lexicon.ofGrammar groupPassedOver ⟨false, .default⟩ = .ok c ∧
        (∀ r ∈ c.rules, ∃ own, Compiled.ofText? r.fragment = .ok own) ∧
        (∀ r ∈ c.rules, Pattern.AnchorFree r.fragment) ∧
        (∀ r ∈ c.rules, r.kind.id = 2 → r.whole.matchesIn [98] = false) ∧
        c.verdictSoFar? [98] = none ∧
        c.finalVerdict [98] (by decide) = .piece 1 (.token ⟨2, "c"⟩)
        (by decide) :=
    Lexicon.exists_of_ofGrammar (by decide +kernel)
  have b : Text.lossy [98] = "b" := by
    simp [Text.lossy, Text.decodeLossy_cons_ascii, Text.decodeLossy]
  have first :=
    Lexer.results_of_finalVerdict (by decide) (by decide) undecided final
  rw [List.take_of_length_le (by decide), b] at first
  have bytes : Text.bytesOf "b" = [98] := by
    rw [Text.bytesOf_eq]
    decide
  refine ⟨c, made, alone, free, first, ?_⟩
  intro r mem third
  rw [LexicalRule.matchesWhole, bytes]
  exact mistaken r mem third

end Lexigram
