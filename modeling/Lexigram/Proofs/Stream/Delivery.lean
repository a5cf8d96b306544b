import Lexigram.Stream.Window

/-!
What a window gets out of a source whose reads do not fail. A window always
offers a read some room, so a source ends only where its script does, and what
the reads bring makes up what the source delivers.
-/

namespace Lexigram

namespace Source

/-- All that a source gives up to the end of the stream, if no read fails
before. -/
def delivered : Source → Option (List UInt8)
  | [] => some []
  | .bytes [] :: _ => some []
  | .bytes (b :: bytes) :: rest => (delivered rest).map ((b :: bytes) ++ ·)
  | .failure _ :: _ => none
  | .death :: _ => none

/-- Whether `reads` can be what the reads of a source bring up to the end of the
stream, when each is offered room for `room` bytes at least. -/
inductive ReadsAs (room : Nat) : Source → List (List UInt8) → Prop where
  | done {source rest : Source} {space : Nat} :
      room ≤ space → source.read space = (.bytes [], rest) →
        ReadsAs room source []
  | more {source rest : Source} {space : Nat} {content : List UInt8}
      {reads : List (List UInt8)} :
      room ≤ space → source.read space = (.bytes content, rest) → content ≠ [] →
        ReadsAs room rest reads → ReadsAs room source (content :: reads)

/-- Chunks of bytes are delivered one behind the other. -/
theorem delivered_chunks {chunks : List (List UInt8)}
    (nonempty : ∀ chunk ∈ chunks, chunk ≠ []) :
    delivered (chunks.map .bytes) = some chunks.flatten := by
  induction chunks with
  | nil => rfl
  | cons chunk chunks ih =>
    obtain ⟨b, bytes, rfl⟩ :=
      List.exists_cons_of_ne_nil (nonempty chunk (.head _))
    simp [delivered, ih fun chunk mem => nonempty chunk (.tail _ mem)]

/-- A read that is offered room brings nothing only at the end of the stream. -/
theorem read_of_delivered {source : Source} {input : List UInt8} {space : Nat}
    (room : 0 < space) (delivers : source.delivered = some input) :
    ∃ content rest, source.read space = (.bytes content, rest)
      ∧ content.length ≤ space
      ∧ (content = [] ∧ input = []
        ∨ content ≠ [] ∧ ∃ later, rest.delivered = some later
          ∧ input = content ++ later) := by
  match source with
  | [] =>
    cases delivers
    exact ⟨[], [], rfl, Nat.zero_le _, .inl ⟨rfl, rfl⟩⟩
  | .bytes [] :: rest =>
    cases delivers
    exact ⟨[], rest, by simp [read], Nat.zero_le _, .inl ⟨rfl, rfl⟩⟩
  | .bytes (b :: bytes) :: rest =>
    obtain ⟨later, delivered, rfl⟩ := Option.map_eq_some_iff.mp delivers
    refine ⟨(b :: bytes).take space, _, rfl, List.length_take_le _ _,
      .inr ⟨?_, ?_⟩⟩
    · obtain ⟨n, rfl⟩ := Nat.exists_eq_succ_of_ne_zero (Nat.ne_of_gt room)
      exact List.cons_ne_nil _ _
    · -- what there was no room for stays in front of the source
      cases left : (b :: bytes).drop space with
      | nil =>
        have all : (b :: bytes).take space = b :: bytes :=
          List.take_of_length_le (List.drop_eq_nil_iff.mp left)
        exact ⟨later, delivered, by rw [all]⟩
      | cons c others =>
        refine ⟨c :: others ++ later, by simp [Source.delivered, delivered], ?_⟩
        rw [← left, ← List.append_assoc, List.take_append_drop]

/-- The reads of a source that delivers its input are not interrupted. -/
theorem readPatiently_of_delivered {source : Source} {input : List UInt8}
    (delivers : source.delivered = some input) (space : Nat) :
    source.readPatiently space = ([], source.read space) := by
  match source with
  | [] => rfl
  | .bytes _ :: _ => rfl
  | .failure _ :: _ => cases delivers
  | .death :: _ => cases delivers

namespace ReadsAs

variable {room : Nat} {source : Source} {reads : List (List UInt8)}

/-- The reads together bring what the source delivers. -/
theorem flatten_eq {input : List UInt8}
    (pos : 0 < room) (brings : source.ReadsAs room reads)
    (delivers : source.delivered = some input) : reads.flatten = input := by
  induction brings generalizing input with
  | done enough served =>
    obtain ⟨content, rest, read, -, ⟨rfl, rfl⟩ | ⟨nonempty, -⟩⟩ :=
      read_of_delivered (Nat.lt_of_lt_of_le pos enough) delivers
    · rfl
    · rw [served] at read
      cases read
      exact absurd rfl nonempty
  | more enough served nonempty _ ih =>
    obtain ⟨content, rest, read, -, ⟨rfl, rfl⟩ | ⟨-, later, delivered, rfl⟩⟩ :=
      read_of_delivered (Nat.lt_of_lt_of_le pos enough) delivers
    · rw [served] at read
      cases read
      exact absurd rfl nonempty
    · rw [served] at read
      cases read
      rw [List.flatten_cons, ih delivered]

/-- Every source that delivers its input can be read, one chunk a read if there
is room. -/
theorem exists_of_delivered {input : List UInt8} (room : Nat)
    (delivers : source.delivered = some input) :
    ∃ reads, source.ReadsAs room reads := by
  induction source generalizing input with
  | nil => exact ⟨[], .done (Nat.le_refl _) rfl⟩
  | cons chunk rest ih =>
    match chunk with
    | .bytes [] =>
      have ended : Source.read room (.bytes [] :: rest)
        = (.bytes [], rest) := by simp [read]
      exact ⟨[], .done (Nat.le_refl _) ended⟩
    | .bytes (b :: bytes) =>
      obtain ⟨later, delivered, -⟩ := Option.map_eq_some_iff.mp delivers
      obtain ⟨reads, brings⟩ := ih delivered
      have whole : Source.read (max room (b :: bytes).length)
          (.bytes (b :: bytes) :: rest)
          = (.bytes (b :: bytes), rest) := by
        rw [read, List.take_of_length_le (Nat.le_max_right _ _),
          List.drop_eq_nil_of_le (Nat.le_max_right _ _)]
      exact ⟨_, .more (Nat.le_max_left _ _) whole (List.cons_ne_nil _ _) brings⟩
    | .failure _ => cases delivers
    | .death => cases delivers

/-- Chunks that there is room for are read one by one. -/
theorem eq_of_fitting {chunks : List (List UInt8)}
    (fit : ∀ chunk ∈ chunks, chunk ≠ [] ∧ chunk.length ≤ room)
    (brings : ReadsAs room (chunks.map .bytes) reads) : reads = chunks := by
  induction chunks generalizing reads with
  | nil =>
    cases brings with
    | done => rfl
    | more _ served nonempty =>
      cases served
      exact absurd rfl nonempty
  | cons chunk chunks ih =>
    obtain ⟨nonempty, short⟩ := fit chunk (.head _)
    have whole {space : Nat} (enough : room ≤ space) :
        Source.read space (.bytes chunk :: chunks.map .bytes)
          = (.bytes chunk, chunks.map .bytes) := by
      have fits := Nat.le_trans short enough
      rw [read, List.take_of_length_le fits, List.drop_eq_nil_of_le fits]
    cases brings with
    | done enough served =>
      rw [List.map_cons, whole enough] at served
      cases served
      exact absurd rfl nonempty
    | more enough served _ brings =>
      rw [List.map_cons, whole enough] at served
      cases served
      rw [ih (fun chunk mem => fit chunk (.tail _ mem)) brings]

end ReadsAs

end Source

namespace Window

/-- Whether a window has the capacity for its bytes. -/
def Fits (w : Window) : Prop :=
  w.filled.length ≤ w.capacity

theorem fits_new (nominal : Nat) : (new nominal).Fits :=
  Nat.zero_le _

theorem Fits.consume {w : Window} (fits : w.Fits) (count : Nat) :
    (w.consume count).Fits := by
  simp only [Fits, Window.consume, List.length_drop]
  exact Nat.le_trans (Nat.sub_le _ _) fits

theorem growth_pos (w : Window) : 0 < w.growth :=
  Nat.lt_of_lt_of_le Nat.one_pos (Nat.le_max_right _ _)

/-- Once there is room, it is enough for a read. -/
theorem Fits.growth_le_space {w : Window} (fits : w.Fits) :
    w.growth ≤ w.makeRoom.space := by
  have kept : w.filled.length ≤ w.keptCapacity := by
    simp only [keptCapacity]
    split
    · next gives =>
      simp only [shrinks, Bool.and_eq_true, decide_eq_true_eq] at gives
      omega
    · exact fits
  simp only [space, makeRoom]
  by_cases grows : w.grows
  · rw [if_pos grows]
    omega
  · rw [if_neg grows]
    simp only [Window.grows, decide_eq_true_eq, Nat.not_lt] at grows
    exact grows

/-- What filling a window does when the read brings `content`. -/
structure Fetches (w : Window) (source : Source) (content : List UInt8) :
    Prop where
  read : ∃ space, w.growth ≤ space ∧
    source.read space = (.bytes content, (w.fill source).source)
  outcome : (w.fill source).outcome = .read content.length
  filled : (w.fill source).window.filled = w.filled ++ content
  exhausted : (w.fill source).window.exhausted
    = (w.exhausted || content.isEmpty)
  growth : (w.fill source).window.growth = w.growth
  fits : (w.fill source).window.Fits

/-- Filling a window from a source whose reads do not fail brings the next
bytes, or none at the end. -/
theorem Fits.fetches {w : Window} (fits : w.Fits) {source : Source}
    {input : List UInt8} (delivers : source.delivered = some input) :
    ∃ content, w.Fetches source content
      ∧ (content = [] ∧ input = []
        ∨ content ≠ [] ∧ ∃ later, (w.fill source).source.delivered = some later
          ∧ input = content ++ later) := by
  have enough := fits.growth_le_space
  obtain ⟨content, rest, served, short, brought⟩ :=
    Source.read_of_delivered (Nat.lt_of_lt_of_le w.growth_pos enough) delivers
  have fill : w.fill source = ⟨w.makeRoom.receive content, rest,
      .read content.length,
      [⟨w.makeRoom.space, .ok content.length⟩], w.roomRecords⟩ := by
    simp only [Window.fill, Source.readPatiently_of_delivered delivers, served]
    rfl
  refine ⟨content, ⟨⟨_, enough, by rw [fill]; exact served⟩, by rw [fill],
    by rw [fill]; rfl,
    by rw [fill]; rfl, by rw [fill]; rfl, ?_⟩, by rw [fill]; exact brought⟩
  rw [fill]
  simp only [Fits, receive, List.length_append]
  have room : w.makeRoom.space = w.makeRoom.capacity
    - w.makeRoom.filled.length := rfl
  have pos := w.growth_pos
  omega

end Window

end Lexigram
