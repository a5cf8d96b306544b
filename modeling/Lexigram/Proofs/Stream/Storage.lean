import Lexigram.Proofs.Stream.Conservation
import Lexigram.Proofs.Stream.Reads

/-!
Windows as queues of bytes. However a window is filled and consumed, it gives
out the bytes of its source in order, none lost and none twice, and it takes the
stream for ended only if the source was (`Window.used_lossless`).

A window speaks of the bytes that are still to be consumed. They stand in a
storage of fixed length between two indices; making room moves them to the
front, cuts the storage off behind them or makes it longer. `Storage` is that
storage, byte by byte, and `Storage.window` what a window shows of it: as long
as the indices are in order, everything done to the storage is what is done to
the window.
-/

namespace Lexigram

/-! ## Storages -/

/-- Bytes in a row, of which those from `start` on and before `stop` are read
and not consumed. -/
structure Storage where
  nominal : Nat
  data : List UInt8
  start : Nat
  stop : Nat
  exhausted : Bool
  deriving Repr, DecidableEq

namespace Storage

/-- An empty storage of the nominal size, one byte at least. -/
def new (nominal : Nat) : Storage :=
  ⟨max nominal 1, List.replicate (max nominal 1) 0, 0, 0, false⟩

/-- The bytes between the indices. -/
def filled (s : Storage) : List UInt8 :=
  (s.data.take s.stop).drop s.start

/-- What a window shows of a storage. -/
def window (s : Storage) : Window :=
  ⟨s.nominal, s.data.length, s.start, s.filled, s.exhausted⟩

/-- Moves the first index on. Once it meets the second both go back to the
front. -/
def consume (s : Storage) (count : Nat) : Storage :=
  let start := min (s.start + count) s.stop
  if start = s.stop then { s with start := 0, stop := 0 } else { s with start }

/-- The least room for a read, and the step the storage grows by. -/
def growth (s : Storage) : Nat :=
  max (s.nominal / 2) 1

/-- Copies the bytes between the indices to the front, over what is there. -/
def compact (s : Storage) : Storage :=
  if 0 < s.start then
    { s with
      data := s.filled ++ s.data.drop s.filled.length, start := 0,
      stop := s.stop - s.start }
  else s

/-- Cuts the storage off at the nominal size, if the room that leaves is
enough. -/
def shrink (s : Storage) : Storage :=
  if s.nominal < s.data.length ∧ s.stop + s.growth ≤ s.nominal then
    { s with data := s.data.take s.nominal }
  else s

/-- Makes the storage longer, if there is too little room for a read. -/
def grow (s : Storage) : Storage :=
  if s.data.length - s.stop < s.growth then
    { s with data := s.data ++ List.replicate s.growth 0 }
  else s

/-- Writes the bytes of a read behind those that are there; none mean the end of
the stream. -/
def receive (s : Storage) (content : List UInt8) : Storage :=
  { s with
    data :=
      s.data.take s.stop ++ content ++ s.data.drop (s.stop + content.length)
    stop := s.stop + content.length
    exhausted := s.exhausted || content.isEmpty }

/-- The storage with room for a read. -/
def makeRoom (s : Storage) : Storage :=
  s.compact.shrink.grow

/-- Reads once, interruptions aside, into the room behind the second index. -/
def fill (s : Storage) (source : Source) : Storage × Source :=
  let roomy := s.makeRoom
  match source.readPatiently (roomy.data.length - roomy.stop) with
  | (_, .bytes content, rest) => (roomy.receive content, rest)
  | (_, _, rest) => (roomy, rest)

/-- Whether the indices are in order, and the storage has its nominal size at
least. -/
structure InOrder (s : Storage) : Prop where
  start_le : s.start ≤ s.stop
  stop_le : s.stop ≤ s.data.length
  nominal_le : s.nominal ≤ s.data.length

variable {s : Storage}

theorem length_filled (h : s.InOrder) : s.filled.length = s.stop - s.start := by
  have stop := h.stop_le
  simp only [filled, List.length_drop, List.length_take]
  omega

theorem inOrder_new (nominal : Nat) : (new nominal).InOrder :=
  ⟨Nat.le_refl _, Nat.zero_le _, by simp [new]⟩

theorem window_new (nominal : Nat) :
    (new nominal).window = Window.new nominal := by
  simp [window, new, filled, Window.new]

theorem InOrder.consume (h : s.InOrder) (count : Nat) :
    (s.consume count).InOrder := by
  have start := h.start_le
  have stop := h.stop_le
  simp only [Storage.consume]
  split
  · exact ⟨Nat.le_refl _, Nat.zero_le _, h.nominal_le⟩
  · exact ⟨Nat.min_le_right _ _, stop, h.nominal_le⟩

/-- Consuming moves the index over the bytes that the window drops. -/
theorem window_consume (h : s.InOrder) (count : Nat) :
    (s.consume count).window = s.window.consume count := by
  have length := length_filled h
  have le := h.start_le
  have moved : (s.data.take s.stop).drop (s.start + count)
      = s.filled.drop count := by
    rw [filled, List.drop_drop]
  by_cases all : s.stop ≤ s.start + count
  · have least : min (s.start + count) s.stop = s.stop := Nat.min_eq_right all
    have gone : s.filled.drop count = [] := by
      rw [List.drop_eq_nil_iff]
      omega
    have empty : (s.consume count).window
        = { s.window with filled := [], start := 0 } := by
      simp [Storage.consume, least, window, filled]
    rw [empty, Window.consume]
    simp [window, gone]
  · have least : min (s.start + count) s.stop = s.start + count :=
      Nat.min_eq_left (by omega)
    have before : s.start + count ≠ s.stop := by omega
    have remains : s.filled.drop count ≠ [] := by
      rw [Ne, List.drop_eq_nil_iff]
      omega
    have left : (s.consume count).window = { s.window with
        filled := s.filled.drop count, start := s.start + count } := by
      simp only [Storage.consume, least, before, if_false, window, ← moved]
      rfl
    rw [left, Window.consume]
    simp [window, remains]

/-! ## Making room -/

/-- What is compact stands at the front. -/
theorem compact_spec (h : s.InOrder) :
    s.compact.InOrder ∧ s.compact.start = 0 ∧
      s.compact.window = { s.window with start := 0 } := by
  have length := length_filled h
  have le := h.start_le
  have stop_le := h.stop_le
  have nominal := h.nominal_le
  simp only [compact]
  by_cases pos : 0 < s.start
  · have data : (s.filled ++ s.data.drop s.filled.length).length
        = s.data.length := by
      rw [List.length_append, List.length_drop]
      omega
    have filled : ((s.filled ++ s.data.drop s.filled.length).take
        (s.stop - s.start)).drop 0 = s.filled := by
      rw [← length, List.take_left, List.drop_zero]
    rw [if_pos pos]
    refine ⟨⟨Nat.zero_le _, ?_, ?_⟩, rfl, ?_⟩
    · show s.stop - s.start ≤ (s.filled ++ s.data.drop s.filled.length).length
      omega
    · show s.nominal ≤ (s.filled ++ s.data.drop s.filled.length).length
      omega
    · show Window.mk _ _ _ _ _ = Window.mk _ _ _ _ _
      rw [data]
      exact congrArg (Window.mk _ _ _ · _) filled
  · have zero : s.start = 0 := by omega
    rw [if_neg pos]
    refine ⟨h, zero, ?_⟩
    show Window.mk _ _ _ _ _ = Window.mk _ _ _ _ _
    rw [zero]
    rfl

/-- The storage is not cut off before the second index. -/
theorem shrink_spec (h : s.InOrder) (front : s.start = 0) :
    s.shrink.InOrder ∧ s.shrink.start = 0 ∧ s.shrink.window
      = { s.window with capacity := s.window.keptCapacity } := by
  have length := length_filled h
  have stop := h.stop_le
  have shrinks : s.window.shrinks = true
      ↔ s.nominal < s.data.length ∧ s.stop + s.growth ≤ s.nominal := by
    have fills : s.filled.length = s.stop := by omega
    rw [Window.shrinks, Bool.and_eq_true, decide_eq_true_eq, decide_eq_true_eq,
      ← fills]
    rfl
  simp only [shrink]
  by_cases cut : s.nominal < s.data.length ∧ s.stop + s.growth ≤ s.nominal
  · have kept : (s.data.take s.nominal).length = s.nominal := by
      rw [List.length_take]
      omega
    have same : ((s.data.take s.nominal).take s.stop).drop s.start
        = s.filled := by
      rw [List.take_take, Nat.min_eq_left (by omega), filled]
    have keeps : s.window.keptCapacity = s.nominal := by
      rw [Window.keptCapacity, if_pos (shrinks.mpr cut)]
      rfl
    rw [if_pos cut, keeps]
    refine ⟨⟨h.start_le, ?_, Nat.le_of_eq kept.symm⟩, front, ?_⟩
    · show s.stop ≤ (s.data.take s.nominal).length
      omega
    · show Window.mk _ _ _ _ _ = Window.mk _ _ _ _ _
      rw [kept]
      exact congrArg (Window.mk _ _ _ · _) same
  · have keeps : s.window.keptCapacity = s.data.length := by
      rw [Window.keptCapacity, if_neg (fun need => cut (shrinks.mp need))]
      rfl
    rw [if_neg cut, keeps]
    exact ⟨h, front, rfl⟩

theorem grow_spec (h : s.InOrder) (front : s.start = 0) :
    s.grow.InOrder ∧ s.grow.start = 0
      ∧ s.grow.window = { s.window with
          capacity := if s.window.space < s.window.growth
            then s.window.capacity + s.window.growth
            else s.window.capacity } := by
  have length := length_filled h
  have stop := h.stop_le
  have nominal := h.nominal_le
  have space : s.window.space = s.data.length - s.stop := by
    have fills : s.filled.length = s.stop := by omega
    rw [← fills]
    rfl
  rw [space]
  show _ ∧ _ ∧ _ = { s.window with
    capacity := if s.data.length - s.stop
      < s.growth then s.data.length + s.growth else s.data.length }
  simp only [grow]
  by_cases long : s.data.length - s.stop < s.growth
  · have data : (s.data ++ List.replicate s.growth 0).length
      = s.data.length + s.growth := by simp
    have same : ((s.data ++ List.replicate s.growth 0).take s.stop).drop s.start
        = s.filled := by
      rw [List.take_append_of_le_length stop, filled]
    rw [if_pos long, if_pos long]
    refine ⟨⟨h.start_le, ?_, ?_⟩, front, ?_⟩
    · show s.stop ≤ (s.data ++ List.replicate s.growth 0).length
      omega
    · show s.nominal ≤ (s.data ++ List.replicate s.growth 0).length
      omega
    · show Window.mk _ _ _ _ _ = Window.mk _ _ _ _ _
      rw [data]
      exact congrArg (Window.mk _ _ _ · _) same
  · rw [if_neg long, if_neg long]
    exact ⟨h, front, rfl⟩

/-- Making room for a read keeps the bytes between the indices, and does to the
window what it does. -/
theorem makeRoom_spec (h : s.InOrder) :
    s.makeRoom.InOrder ∧ s.makeRoom.window = s.window.makeRoom
      ∧ s.makeRoom.data.length - s.makeRoom.stop = s.window.makeRoom.space := by
  obtain ⟨compact, zero, moved⟩ := compact_spec h
  obtain ⟨shrink, zero', cut⟩ := shrink_spec compact zero
  obtain ⟨grow, zero'', longer⟩ := grow_spec shrink zero'
  have window : s.makeRoom.window = s.window.makeRoom := by
    show s.compact.shrink.grow.window = _
    rw [longer, cut, moved, Window.makeRoom]
    simp only [Window.grows, Window.space, decide_eq_true_eq]
    rfl
  refine ⟨grow, window, ?_⟩
  have length : s.makeRoom.filled.length = s.makeRoom.stop - s.makeRoom.start :=
    length_filled grow
  have front : s.makeRoom.start = 0 := zero''
  rw [← window, Window.space]
  show _ = s.makeRoom.data.length - s.makeRoom.filled.length
  omega

/-! ## Reading -/

theorem receive_spec (h : s.InOrder) {content : List UInt8}
    (room : content.length ≤ s.data.length - s.stop) :
    (s.receive content).InOrder ∧ (s.receive content).window
      = s.window.receive content := by
  have start := h.start_le
  have stop := h.stop_le
  have nominal := h.nominal_le
  have taken : (s.data.take s.stop).length = s.stop := by
    rw [List.length_take]
    omega
  have data : (s.receive content).data.length = s.data.length := by
    simp only [receive, List.length_append, taken, List.length_drop]
    omega
  have front : (s.receive content).data.take (s.stop + content.length)
      = s.data.take s.stop ++ content := by
    have fits : s.stop + content.length
        = (s.data.take s.stop ++ content).length := by
      rw [List.length_append, taken]
    simp only [receive]
    rw [fits, List.take_left]
  have same : (s.receive content).filled = s.filled ++ content := by
    show ((s.receive content).data.take (s.stop + content.length)).drop
      s.start = _
    rw [front, List.drop_append_of_le_length (by omega), filled]
  constructor
  · refine ⟨Nat.le_trans start (Nat.le_add_right _ _), ?_, data ▸ nominal⟩
    show s.stop + content.length ≤ _
    omega
  · show Window.mk _ _ _ _ _ = Window.mk _ _ _ _ _
    rw [data, same]
    rfl

/-- Filling the storage is filling the window. -/
theorem fill_spec (h : s.InOrder) (source : Source) :
    (s.fill source).1.InOrder ∧ (s.fill source).1.window
      = (s.window.fill source).window
      ∧ (s.fill source).2 = (s.window.fill source).source := by
  obtain ⟨roomy, window, space⟩ := makeRoom_spec h
  simp only [fill, Window.fill, space]
  cases patient : source.readPatiently s.window.makeRoom.space with
  | mk attempts outcome =>
    obtain ⟨served, rest⟩ := outcome
    cases served with
    | bytes content =>
      obtain ⟨messages, others, -, -, read⟩ :=
        Source.exists_interruptions patient
      have short := (Source.weight_read_add_le read).2
      obtain ⟨order, received⟩ := receive_spec roomy (space ▸ short)
      exact ⟨order, window ▸ received, rfl⟩
    | failure f => exact ⟨roomy, window, rfl⟩
    | death => exact ⟨roomy, window, rfl⟩

end Storage

/-! ## The end of the stream -/

namespace Source

/-- Whether a source has come to the end of the stream: it is over, or has a
chunk without bytes in front. -/
inductive AtEnd : Source → Prop where
  | over : AtEnd []
  | chunk (rest : Source) : AtEnd (.bytes [] :: rest)

/-- Offered some room, only a source at its end brings nothing. -/
theorem atEnd_of_read {source rest : Source} {space : Nat} (room : 0 < space)
    (reads : source.read space = (.bytes [], rest)) : source.AtEnd := by
  match source with
  | [] => exact .over
  | .bytes [] :: others => exact .chunk others
  | .bytes (b :: bytes) :: others =>
    simp only [read, Prod.mk.injEq, Served.bytes.injEq, List.take_eq_nil_iff]
      at reads
    rcases reads.1 with zero | beyond
    · omega
    · cases beyond
  | .failure f :: others => cases reads
  | .death :: others => cases reads

/-- Whether one of the reads of a source was made at its end, and brought
nothing. -/
def EndsIn (source : Source) (reads : List ReadRecord) : Prop :=
  ∃ front last back content next, reads = front ++ last :: back
    ∧ last.outcome = .ok 0
    ∧ source.Serves front content next ∧ next.AtEnd

theorem EndsIn.behind {source next : Source} {front reads : List ReadRecord}
    {content : List UInt8} (serves : source.Serves front content next)
    (h : next.EndsIn reads) : source.EndsIn (front ++ reads) := by
  obtain ⟨front', last, back, content', next', rfl, zero, serves', ends⟩ := h
  exact ⟨front ++ front', last, back, content ++ content', next', by simp, zero,
    serves.append serves', ends⟩

/-- If every read is offered some room, one that brings nothing is made at the
end of the source. -/
theorem Serves.endsIn {source rest : Source} {reads : List ReadRecord}
    {content : List UInt8} (serves : source.Serves reads content rest)
    (room : ∀ r ∈ reads, 0 < r.space)
    (nothing : ∃ r ∈ reads, r.outcome = .ok 0) : source.EndsIn reads := by
  induction serves with
  | done source =>
    obtain ⟨r, mem, -⟩ := nothing
    cases mem
  | @bytes source next rest space brought content reads read more ih =>
    obtain ⟨pos, room⟩ := List.forall_mem_cons.mp room
    by_cases empty : brought = []
    · subst empty
      exact ⟨[], _, reads, [], source, rfl, rfl, .done source,
        atEnd_of_read pos read⟩
    · obtain ⟨r, mem, zero⟩ := nothing
      rcases List.mem_cons.mp mem with rfl | later
      · injection zero with same
        exact absurd (List.eq_nil_of_length_eq_zero same) empty
      · exact .behind (.bytes read (.done next)) (ih room ⟨r, later, zero⟩)
  | @failure source next rest space f content reads read more ih =>
    obtain ⟨r, mem, zero⟩ := nothing
    rcases List.mem_cons.mp mem with rfl | later
    · cases zero
    · exact .behind (.failure read (.done next))
        (ih (List.forall_mem_cons.mp room).2 ⟨r, later, zero⟩)
  | @death source next rest space content reads read more ih =>
    exact .behind (.death read (.done next)) (ih room nothing)

end Source

/-! ## Windows in use -/

namespace Window

/-- What is done to a window. -/
inductive Operation where
  | fill
  | consume (count : Nat)
  deriving Repr, DecidableEq

/-- A window in use: with what is left of its source, the bytes consumed so far
and the reads made so far. -/
structure Use where
  window : Window
  source : Source
  consumed : List UInt8
  reads : List ReadRecord

/-- One operation on a window in use. -/
def Use.perform (u : Use) : Operation → Use
  | .fill =>
    let f := u.window.fill u.source
    ⟨f.window, f.source, u.consumed, u.reads ++ f.reads⟩
  | .consume count =>
    { u with
      window := u.window.consume count,
      consumed := u.consumed ++ u.window.filled.take count }

/-- A new window on a source after operations. -/
def used (nominal : Nat) (source : Source) (ops : List Operation) : Use :=
  ops.foldl Use.perform ⟨new nominal, source, [], []⟩

end Window

namespace Storage

/-- One operation on a storage and what is left of its source. -/
def perform (p : Storage × Source) : Window.Operation → Storage × Source
  | .fill => p.1.fill p.2
  | .consume count => (p.1.consume count, p.2)

/-- A new storage after operations, and what is left of its source. -/
def used (nominal : Nat) (source : Source) (ops : List Window.Operation) :
    Storage × Source :=
  ops.foldl perform (new nominal, source)

/-- Whether a storage stands behind a window in use. -/
structure Backs (p : Storage × Source) (u : Window.Use) : Prop where
  inOrder : p.1.InOrder
  window : p.1.window = u.window
  source : p.2 = u.source

theorem Backs.perform {p : Storage × Source} {u : Window.Use} (h : Backs p u)
    (op : Window.Operation) :
    Backs (Storage.perform p op) (u.perform op) := by
  obtain ⟨s, rest⟩ := p
  obtain ⟨inOrder, window, rfl⟩ := h
  cases op with
  | fill =>
    obtain ⟨inOrder', window', source'⟩ := fill_spec inOrder u.source
    rw [window] at window' source'
    exact ⟨inOrder', window', source'⟩
  | consume count =>
    have window' := window_consume inOrder count
    rw [window] at window'
    exact ⟨inOrder.consume count, window', rfl⟩

theorem backs_used (nominal : Nat) (source : Source)
    (ops : List Window.Operation) :
    Backs (used nominal source ops) (Window.used nominal source ops) := by
  have run : ∀ p u, Backs p u → Backs (ops.foldl perform p)
      (ops.foldl Window.Use.perform u) := by
    induction ops with
    | nil => intro p u h; exact h
    | cons op ops ih => intro p u h; exact ih _ _ (h.perform op)
  exact run _ _ ⟨inOrder_new nominal, window_new nominal, rfl⟩

end Storage

namespace Window

/-- Whether a window in use has lost nothing of what `origin` gave: all that was
read has been consumed or is in the window, every read was offered enough room,
and the stream counts as ended if a read has brought nothing. -/
structure Use.Sound (nominal : Nat) (origin : Source) (u : Use) : Prop where
  nominal_eq : u.window.nominal = max nominal 1
  fits : u.window.Fits
  serves : origin.Serves u.reads (u.consumed ++ u.window.filled) u.source
  roomy : ∀ r ∈ u.reads, max (nominal / 2) 1 ≤ r.space
  exhausted_iff : u.window.exhausted = true ↔ ∃ r ∈ u.reads, r.outcome = .ok 0

variable {nominal : Nat} {origin : Source} {u : Use}

theorem Use.Sound.growth_eq (h : u.Sound nominal origin) :
    u.window.growth = max (nominal / 2) 1 := by
  rw [growth, h.nominal_eq]
  by_cases zero : nominal = 0
  · subst zero
    rfl
  · have pos : max nominal 1 = nominal := by omega
    rw [pos]

/-- The reads of a fill: attempts that are interrupted, and the last one behind
them, if it did not end the thread. -/
theorem exists_reads_fill (w : Window) (source : Source) :
    ∃ attempts last, (w.fill source).reads = attempts ++ last
      ∧ (∀ r ∈ attempts, r.space = w.makeRoom.space ∧ r.outcome ≠ .ok 0)
      ∧ (∀ r ∈ last, r.space = w.makeRoom.space)
      ∧ ((w.fill source).window.exhausted = true
        ↔ w.exhausted = true ∨ ∃ r ∈ last, r.outcome = .ok 0) := by
  obtain ⟨messages, _, served, _, -, -, -, fill⟩ := w.exists_fill source
  have interrupted : ∀ r ∈ List.replicate messages.length (⟨w.makeRoom.space,
      .error .interrupted⟩ : ReadRecord),
      r.space = w.makeRoom.space ∧ r.outcome ≠ .ok 0 := by
    intro r mem
    rw [(List.mem_replicate.mp mem).2]
    exact ⟨rfl, nofun⟩
  cases served with
  | bytes content =>
    obtain ⟨-, window, reads⟩ := fill
    refine ⟨_, _, reads, interrupted, by simp, ?_⟩
    rw [window]
    cases content <;> simp [receive, Window.makeRoom]
  | failure f =>
    obtain ⟨-, window, reads⟩ := fill
    refine ⟨_, _, reads, interrupted, by simp, ?_⟩
    rw [window]
    simp [Window.makeRoom]
  | death =>
    obtain ⟨-, window, reads⟩ := fill
    refine ⟨_, [], reads.trans (List.append_nil _).symm, interrupted,
      by simp, ?_⟩
    rw [window]
    simp [Window.makeRoom]

theorem nominal_fill (w : Window) (source : Source) :
    (w.fill source).window.nominal = w.nominal := by
  obtain ⟨_, _, served, _, -, -, -, fill⟩ := w.exists_fill source
  cases served with
  | bytes content => rw [fill.2.1]; rfl
  | failure f => rw [fill.2.1]; rfl
  | death => rw [fill.2.1]; rfl

theorem Fits.fill {w : Window} (fits : w.Fits) (source : Source) :
    (w.fill source).window.Fits := by
  obtain ⟨_, _, served, _, -, read, -, fill⟩ := w.exists_fill source
  cases served with
  | bytes content =>
    rw [fill.2.1]
    exact fits.makeRoom.receive (Source.weight_read_add_le read).2
  | failure f => rw [fill.2.1]; exact fits.makeRoom
  | death => rw [fill.2.1]; exact fits.makeRoom

/-- Each operation keeps what has been read in order. -/
theorem Use.Sound.perform (h : u.Sound nominal origin) (op : Operation) :
    (u.perform op).Sound nominal origin := by
  cases op with
  | fill =>
    obtain ⟨attempts, last, reads, interrupted, spaced, ended⟩ :=
      u.window.exists_reads_fill u.source
    obtain ⟨content, serves, filled⟩ := u.window.serves_fill u.source
    have room : max (nominal / 2) 1 ≤ u.window.makeRoom.space := by
      rw [← h.growth_eq]
      exact h.fits.growth_le_space
    refine ⟨(u.window.nominal_fill u.source).trans h.nominal_eq,
      h.fits.fill u.source, ?_, ?_, ?_⟩
    · show origin.Serves (u.reads ++ (u.window.fill u.source).reads)
        (u.consumed ++ (u.window.fill u.source).window.filled)
        (u.window.fill u.source).source
      rw [filled, ← List.append_assoc]
      exact h.serves.append serves
    · intro r mem
      simp only [Use.perform, reads, List.mem_append] at mem
      rcases mem with mem | mem | mem
      · exact h.roomy r mem
      · rw [(interrupted r mem).1]
        exact room
      · rw [spaced r mem]
        exact room
    · show (u.window.fill u.source).window.exhausted = true ↔ _
      have never : ¬ ∃ r ∈ attempts, r.outcome = .ok 0 := by
        rintro ⟨r, mem, zero⟩
        exact (interrupted r mem).2 zero
      rw [ended, h.exhausted_iff]
      simp only [Use.perform, reads, List.mem_append, or_and_right, exists_or,
        never, false_or]
  | consume count =>
    refine ⟨h.nominal_eq, h.fits.consume count, ?_, h.roomy, h.exhausted_iff⟩
    show origin.Serves u.reads (u.consumed ++ u.window.filled.take count
      ++ u.window.filled.drop count) u.source
    rw [List.append_assoc, List.take_append_drop]
    exact h.serves

theorem sound_used (nominal : Nat) (origin : Source) (ops : List Operation) :
    (used nominal origin ops).Sound nominal origin := by
  have run : ∀ u : Use, u.Sound nominal origin →
      (ops.foldl Use.perform u).Sound nominal origin := by
    induction ops with
    | nil => intro u h; exact h
    | cons op ops ih => intro u h; exact ih _ (h.perform op)
  refine run _ ⟨rfl, fits_new nominal, .done origin, List.forall_mem_nil _, ?_⟩
  constructor
  · intro h
    cases h
  · rintro ⟨r, mem, -⟩
    cases mem

/-- A fill that reads nothing, because it fails or the thread ends, leaves the
bytes alone. -/
theorem fill_read_or_keeps (w : Window) (source : Source) :
    (∃ count, (w.fill source).outcome = .read count)
      ∨ (w.fill source).window.filled = w.filled ∧
      (w.fill source).window.exhausted = w.exhausted := by
  obtain ⟨_, _, served, _, -, -, -, fill⟩ := w.exists_fill source
  cases served with
  | bytes content => exact .inl ⟨content.length, fill.1⟩
  | failure f =>
    right
    rw [fill.2.1]
    exact ⟨rfl, rfl⟩
  | death =>
    right
    rw [fill.2.1]
    exact ⟨rfl, rfl⟩

/-- **A window is a queue that loses nothing.** Take a new window of any nominal
size on any source, and fill it and consume from it in any order. Then in the
storage behind the window the first index is not behind the second, nor the
second behind the end, and the storage has the nominal size and one byte at
least. The bytes consumed so far, and behind them those in the window, are what
the reads of the source have delivered, in order. Every read was offered room
for half of the nominal size and for one byte at least, and so will the next be;
the stream counts as ended exactly if the source was at its end for one of the
reads. And the next fill either reads or leaves the bytes in the window, and
whether the stream counts as ended, as they are. -/
theorem used_lossless (nominal : Nat) (source : Source) (ops : List Operation) :
    ((Storage.used nominal source ops).1.window
        = (used nominal source ops).window
        ∧ (Storage.used nominal source ops).1.start
        ≤ (Storage.used nominal source ops).1.stop
        ∧ (Storage.used nominal source ops).1.stop
        ≤ (Storage.used nominal source ops).1.data.length
        ∧ max nominal 1 ≤ (Storage.used nominal source ops).1.data.length)
      ∧ source.Serves (used nominal source ops).reads ((used nominal
          source ops).consumed ++ (used nominal source ops).window.filled)
          (used nominal source ops).source
      ∧ (∀ r ∈ (used nominal source ops).reads, max (nominal / 2) 1 ≤ r.space)
      ∧ max (nominal / 2) 1 ≤ (used nominal source ops).window.makeRoom.space
      ∧ ((used nominal source ops).window.exhausted = true
        ↔ source.EndsIn (used nominal source ops).reads)
      ∧ ((∃ count, ((used nominal source ops).window.fill
        (used nominal source ops).source).outcome = .read count)
        ∨ ((used nominal source ops).window.fill
          (used nominal source ops).source).window.filled
            = (used nominal source ops).window.filled
          ∧ ((used nominal source ops).window.fill
            (used nominal source ops).source).window.exhausted
            = (used nominal source ops).window.exhausted) := by
  have sound := sound_used nominal source ops
  obtain ⟨inOrder, window, -⟩ := Storage.backs_used nominal source ops
  have kept : (Storage.used nominal source ops).1.nominal = max nominal 1 :=
    (congrArg Window.nominal window).trans sound.nominal_eq
  refine ⟨⟨window, inOrder.start_le, inOrder.stop_le,
    kept ▸ inOrder.nominal_le⟩, sound.serves, sound.roomy,
    ?_, ?_, fill_read_or_keeps _ _⟩
  · rw [← sound.growth_eq]
    exact sound.fits.growth_le_space
  · rw [sound.exhausted_iff]
    constructor
    · refine sound.serves.endsIn fun r mem => ?_
      have space := sound.roomy r mem
      omega
    · rintro ⟨front, last, back, -, -, reads, zero, -, -⟩
      exact ⟨last, reads ▸ List.mem_append_right _ List.mem_cons_self, zero⟩

end Window

end Lexigram
