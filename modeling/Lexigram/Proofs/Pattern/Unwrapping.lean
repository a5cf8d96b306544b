import Lexigram.Proofs.Pattern.CutElements
import Lexigram.Proofs.Pattern.Enclosed

/-!
Patterns out of their parentheses. A text that can be read between anchors, in a
group of its own, can be read by itself, unless it closes that group
(`ofText?_of_anchored`): it takes no other fault away that the text has behind
it a parenthesis and an anchor.
-/

namespace Lexigram.Pattern

/-! ## Groups that stay open -/

theorem opened_suffix_of_namedGroup {p p' : Progress} {cs rest : List Char}
    (read : readNamedGroup p cs = .ok (p', rest)) : p.opened <:+ p'.opened := by
  obtain ⟨⟨name, behind⟩, -, there⟩ := bind_ok_iff.mp read
  simp only at there
  split at there
  · cases there
  · cases there
    exact List.suffix_cons _ _

theorem opened_suffix_of_group {p p' : Progress} {cs rest : List Char}
    (read : readGroup p cs = .ok (p', rest)) :
    p.opened <:+ p'.opened := by
  unfold readGroup at read
  split at read
  · cases read
  · cases read
  · cases read
  · cases read
  · exact opened_suffix_of_namedGroup read
  · exact opened_suffix_of_namedGroup read
  · cases read
  · obtain ⟨⟨flags, behind⟩, -, there⟩ := bind_ok_iff.mp read
    simp only at there
    split at there
    · cases there
      exact List.suffix_cons _ _
    · cases there
      exact List.suffix_rfl
  · cases read
    exact List.suffix_cons _ _

theorem opened_of_repeatLast {p p' : Progress} {least : Nat} {most : Option Nat}
    {lazy : Bool} (ok : p.repeatLast least most lazy = .ok p') :
    p'.opened = p.opened := by
  unfold Progress.repeatLast at ok
  split at ok
  · cases ok
    rfl
  · cases ok

theorem opened_suffix_of_repetition {p p' : Progress} {least : Nat}
    {most : Option Nat} {cs rest : List Char} (read : (do
      let (lazy, rest) := readLazy cs
      return (← p.repeatLast least most lazy, rest) :
        Except PatternFault (Progress × List Char)) = .ok (p', rest)) :
    p.opened <:+ p'.opened := by
  obtain ⟨p₁, again, there⟩ := bind_ok_iff.mp read
  cases there
  exact (opened_of_repeatLast again).symm ▸ List.suffix_rfl

/-- Only a closing parenthesis closes a group. -/
theorem opened_suffix_of_element {p p' : Progress} {c : Char}
    {cs rest : List Char} (read : readElementAt p c cs = .ok (p', rest))
    (other : c ≠ ')') : p.opened <:+ p'.opened := by
  unfold readElementAt at read
  dsimp only at read
  split at read
  · exact opened_suffix_of_group read
  · exact absurd rfl other
  · cases read
    exact List.suffix_rfl
  · obtain ⟨class_, -, there⟩ := bind_ok_iff.mp read
    cases there
    exact List.suffix_rfl
  · exact opened_suffix_of_repetition read
  · exact opened_suffix_of_repetition read
  · exact opened_suffix_of_repetition read
  · obtain ⟨bounds, -, there⟩ := bind_ok_iff.mp read
    exact opened_suffix_of_repetition there
  · obtain ⟨atom, -, there⟩ := bind_ok_iff.mp read
    cases there
    exact List.suffix_rfl
  all_goals
    cases read
    exact List.suffix_rfl

theorem Reads.opened_suffix {p q : Progress} {cs : List Char}
    (reads : Reads p cs q) (none : ')' ∉ cs) :
    p.opened <:+ q.opened := by
  induction reads with
  | done => exact List.suffix_rfl
  | @element p p' q c cs cs' rest gap read others ih =>
    have whole := gap ▸ p.flags.dropGap_suffix cs
    have other : c ≠ ')' := by
      intro same
      exact none (List.IsSuffix.mem (by simp [same]) whole)
    have behind : ')' ∉ rest := by
      intro mem
      have inside := List.IsSuffix.mem mem (readsElement p c read).1
      exact none (List.IsSuffix.mem (List.mem_cons_of_mem c inside) whole)
    exact (opened_suffix_of_element read other).trans (ih behind)

theorem Progress.length_placeOpened (base : Progress)
    (opened : List OpenGroup) :
    (base.placeOpened opened).length = opened.length + base.opened.length := by
  induction opened with
  | nil => simp [placeOpened]
  | cons g opened ih =>
    simp only [placeOpened, List.length_cons, ih]
    omega

/-! ## Moves -/

/-- A move that can be made inside another pattern can be made, unless there is
no group to close. -/
theorem Move.apply_of_host {base p p' : Progress} {move : Move}
    (start : base.branches.items = []) (nameless : base.names = [])
    (made : move.apply (base.host p) = .ok p') :
    (∃ q, move.apply p = .ok q ∧ p' = base.host q)
      ∨ move.apply p = .error .unopenedGroup := by
  have possible : (∃ q, move.apply p = .ok q)
      ∨ move.apply p = .error .unopenedGroup := by
    cases move with
    | push | next | openGroup | setFlags => exact .inl ⟨_, rfl⟩
    | close =>
      cases groups : p.opened with
      | nil => exact .inr (by simp only [apply, Progress.closeGroup, groups])
      | cons g opened => exact .inl ⟨_, apply_eq_ok_iff.mpr (.close groups)⟩
    | capture name =>
      cases name with
      | none => exact .inl ⟨_, rfl⟩
      | some name =>
        cases apply_eq_ok_iff.mp made with
        | named new =>
          have unknown : name ∉ p.names := by
            simpa [Progress.host, nameless] using new
          exact .inl ⟨_, apply_eq_ok_iff.mpr (.named unknown)⟩
    | repeatLast least most lazy =>
      cases apply_eq_ok_iff.mp made with
      | @repeatLast _ _ _ e items last =>
        have items : (base.host p).branches.items
            = p.branches.items.map (Option.map (Expr.shift base.groups)) := by
          simp only [Progress.host, Progress.place]
          split
          · simp [Branches.onto, Branches.shift, start]
          · rfl
        rw [items, List.map_eq_cons_iff] at last
        obtain ⟨e', items', here, some, -⟩ := last
        obtain ⟨e', rfl, -⟩ := Option.map_eq_some_iff.mp some
        exact .inl ⟨_, apply_eq_ok_iff.mpr (.repeatLast here)⟩
  rcases possible with ⟨q, alone⟩ | closes
  · have there := Move.apply_host (.inl start) (by simp [nameless]) alone
    exact .inl ⟨q, alone, Except.ok.inj (made.symm.trans there)⟩
  · exact .inr closes

/-! ## Whole texts -/

theorem readElementAt_close (p : Progress) (cs : List Char) :
    readElementAt p ')' cs = p.closeGroup >>= fun p => .ok (p, cs) :=
  rfl

theorem exists_of_closeGroup {p p' : Progress} (ok : p.closeGroup = .ok p') :
    ∃ g, p.opened = g :: p'.opened := by
  unfold Progress.closeGroup at ok
  split at ok
  · cases ok
  · next g opened groups =>
    cases ok
    exact ⟨g, groups⟩

theorem readPattern_dangles {p : Progress} {kept : List Char}
    (dangles : Dangles p.flags kept) :
    readPattern p 0 (kept ++ closing) = .error .badCount := by
  obtain ⟨inside, rfl, gap⟩ := dangles
  have brace (cs : List Char) : p.flags.dropGap ('\x7b' :: cs)
      = '\x7b' :: cs := by
    rw [Flags.dropGap]
    split <;> rfl
  have read : readElementAt p '\x7b' (inside ++ closing)
      = .error .badCount := by
    simp only [readElementAt, readBounds_closing p.flags gap]
    rfl
  rw [List.cons_append, readPattern_element (brace _), read]
  rfl

/-- Where a pattern stands inside another, in a group that `closing` closes, it
is complete by itself, or it closes that group and is none. -/
theorem Reads.unhost {base final p' : Progress} {text : List Char}
    (start : base.branches.items = []) (nameless : base.names = [])
    (around : base.opened ≠ []) (reads : Reads p' text final)
    (complete : final.opened = []) {p : Progress} {cs : List Char}
    (here : p' = base.host p) (front : text = cs ++ closing) :
    (∃ q, readPattern p 0 cs = .ok q ∧ q.opened = [])
      ∨ readPattern p 0 cs = .error .unopenedGroup := by
  have inside (p : Progress) : (base.host p).opened.length
      = p.opened.length + base.opened.length :=
    base.length_placeOpened p.opened
  have open_ (p : Progress) : (base.host p).opened ≠ [] := by
    intro none
    have length := inside p
    rw [none, List.length_nil] at length
    exact around (List.length_eq_zero_iff.mp (by omega))
  induction reads generalizing p cs with
  | done gap =>
    subst here
    exact absurd complete (open_ p)
  | @element p' p₁ final c text text' rest gap read others ih =>
    subst here front
    have gap' : p.flags.dropGap (cs ++ closing) = c :: text' := gap
    rcases p.flags.dropGap_closing cs with same | none
    · cases gapped : p.flags.dropGap cs with
      | nil =>
        -- the parenthesis of `closing` closes the group around the pattern
        rw [gapped] at same
        obtain ⟨rfl, rfl⟩ := List.cons.inj (gap'.symm.trans same)
        rw [readElementAt_close] at read
        obtain ⟨p₂, closed, ended⟩ := bind_ok_iff.mp read
        cases ended
        obtain ⟨g, groups⟩ := exists_of_closeGroup closed
        have none :=
          List.suffix_nil.mp (complete ▸ others.opened_suffix (by decide))
        have length := inside p
        rw [groups, none, List.length_singleton] at length
        have some := List.length_pos_iff.mpr around
        exact .inl ⟨p, (Reads.done gapped).readPattern_eq,
          List.length_eq_zero_iff.mp (by omega)⟩
      | cons d cs' =>
        rw [gapped] at same
        obtain ⟨rfl, rfl⟩ := List.cons.inj (gap'.symm.trans same)
        by_cases left : closing <:+ rest
        · obtain ⟨kept, rfl⟩ := left
          rcases readElementAt_cut (base.host p) read with alone
            | ⟨flags, dangles⟩
          · -- the element is the same move by itself
            obtain ⟨move, made, moves⟩ := exists_move alone
            rw [readPattern_element gapped, moves p rfl]
            rcases Move.apply_of_host start nameless made with ⟨q, made', rfl⟩
              | closes
            · rw [made']
              exact ih complete rfl rfl
            · rw [closes]
              exact .inr rfl
          · have fails := readPattern_dangles (flags ▸ dangles)
            cases fails.symm.trans others.readPattern_eq
        · -- the element takes a part of `closing`, so the group around the
          -- pattern stays open
          have other : c ≠ ')' := by
            rintro rfl
            rw [readElementAt_close] at read
            obtain ⟨p₂, -, ended⟩ := bind_ok_iff.mp read
            cases ended
            exact left (List.suffix_append _ _)
          have short : ')' ∉ rest := by
            have suffix := (readsElement (base.host p) c read).1
            have part := (List.suffix_or_suffix_of_suffix suffix
              (List.suffix_append cs' closing)).resolve_right left
            rcases List.suffix_cons_iff.mp part with whole | part
            · exact absurd (whole ▸ List.suffix_rfl) left
            · exact fun mem => absurd (List.IsSuffix.mem mem part) (by decide)
          have none :=
            List.suffix_nil.mp (complete ▸ others.opened_suffix short)
          exact absurd (List.suffix_nil.mp
            (none ▸ opened_suffix_of_element read other)) (open_ p)
    · cases gap'.symm.trans none

/-- A text that can be read between anchors can be read by itself, unless it
closes the group there. -/
theorem ofText?_of_anchored {cs : List Char} {e : Expr}
    (ok : Expr.ofText? ('^' :: (wrapped cs ++ ['$'])) = .ok e) :
    (∃ own, Expr.ofText? cs = .ok own)
      ∨ Expr.ofText? cs = .error .unopenedGroup := by
  have whole : wrapped cs ++ ['$'] = '(' :: '?' :: ':' :: (cs ++ closing) := by
    simp [wrapped, closing]
  let base :=
    (Progress.initial.push (.anchor .textStart)).openGroup none .initial
  rw [Expr.ofText?, readPattern_start, whole, readPattern_openGroup rfl] at ok
  obtain ⟨final, read, finished⟩ := bind_ok_iff.mp ok
  have complete : final.opened = [] := by
    simp only [Progress.finish, List.isEmpty_iff] at finished
    split at finished
    · assumption
    · cases finished
  have start : base.branches.items = [] := rfl
  have unwrapped := Reads.unhost start rfl (List.cons_ne_nil _ _)
    (reads_of_readPattern read) complete (base.host_initial rfl).symm rfl
  rw [Expr.ofText?]
  rcases unwrapped with ⟨q, alone, closed⟩ | closes
  · exact .inl ⟨q.branches.close, by
      rw [alone]; simp [Progress.finish, closed, bind, Except.bind]⟩
  · exact .inr (by rw [closes]; rfl)

end Lexigram.Pattern
