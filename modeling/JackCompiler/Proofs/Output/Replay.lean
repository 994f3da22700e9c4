import JackCompiler.Proofs.Codegen.Run

/-!
# Runs over sinks of different kinds

A run that writes items knows nothing of its sink but whether it has failed. What such a run does to
any sink is therefore settled by what it writes to a sink without limits, and by how it ends there.

## Main definitions

* `Sink.lines` — what is stored of some items
* `Sink.writeAll` — writes items up to the first one that does not fit
* `Sink.replay`, `Sink.deliver` — writes items and ends in a given way, and then hands on the items

## Main results

* `Sink.bytes_writeAll_of_limited` — a limited sink keeps the first bytes, as many as it accepts
-/

namespace JackCompiler.Sink

variable {α : Type} {render : α → String} {sink : Sink α}

/-- The lines of some items. -/
def lines (render : α → String) (items : List α) : String :=
  String.join (items.map fun item => line (render item))

@[simp] theorem lines_nil : lines render [] = "" := rfl

@[simp] theorem lines_cons (item : α) (items : List α) :
    lines render (item :: items) = line (render item) ++ lines render items := by
  simp [lines]

theorem lines_append (items more : List α) :
    lines render (items ++ more) = lines render items ++ lines render more := by
  simp [lines]

/-- Writes items one after the other, up to the first one that does not fit. -/
def writeAll (render : α → String) : List α → Sink α → Except StorageFault Unit × Sink α
  | [], sink => (.ok (), sink)
  | item :: items, sink =>
    match sink.write render item with
    | (.ok (), sink) => writeAll render items sink
    | (.error fault, sink) => (.error fault, sink)

/-- Writes items and ends in the given way, unless writing fails. -/
def replay (render : α → String) (items : List α) (result : Except Fault Unit) (sink : Sink α) :
    Except Fault Unit × Sink α :=
  match sink.writeAll render items with
  | (.ok (), sink) => (result, sink)
  | (.error fault, sink) => (.error (.storage fault), sink)

/-- Writes items, ends in the given way, and hands on the items if all of that is a success. -/
def deliver (render : α → String) (items : List α) (result : Except Fault Unit) (sink : Sink α) :
    Except Fault Unit × Sink α :=
  match sink.replay render items result with
  | (.ok (), sink) => (sink.flush.mapError .storage, sink)
  | (.error fault, sink) => (.error fault, sink)

theorem writeAll_append (items more : List α) (sink : Sink α) :
    sink.writeAll render (items ++ more) = match sink.writeAll render items with
      | (.ok (), sink) => sink.writeAll render more
      | (.error fault, sink) => (.error fault, sink) := by
  induction items generalizing sink with
  | nil => rfl
  | cons item items ih =>
    rw [List.cons_append, writeAll, writeAll]
    rcases sink.write render item with ⟨fault | _, sink'⟩
    · rfl
    · exact ih sink'

theorem writeAll_singleton (item : α) (sink : Sink α) :
    sink.writeAll render [item] = sink.write render item := by
  rw [writeAll]
  rcases sink.write render item with ⟨fault | _, sink'⟩ <;> rfl

theorem canFlush_write (item : α) (sink : Sink α) :
    (sink.write render item).2.canFlush = sink.canFlush := by
  unfold write
  split
  · rfl
  · dsimp only
    split <;> rfl

/-- Writing does not change whether a sink can be flushed. -/
theorem canFlush_writeAll (items : List α) (sink : Sink α) :
    (sink.writeAll render items).2.canFlush = sink.canFlush := by
  induction items generalizing sink with
  | nil => rfl
  | cons item items ih =>
    have first := @canFlush_write _ render item sink
    rw [writeAll, ← first]
    rcases sink.write render item with ⟨fault | _, sink'⟩
    · rfl
    · exact ih sink'

/-- A sink without a limit takes all items. -/
theorem writeAll_of_unlimited (items : List α) (unlimited : sink.room = none) :
    sink.writeAll render items = (.ok (), sink.extend render items) := by
  induction items generalizing sink with
  | nil => rw [writeAll, extend_nil]
  | cons item items ih =>
    rw [writeAll, write_of_unlimited render item unlimited]
    dsimp only
    rw [ih (by simp [extend, unlimited]), ← extend_append, List.singleton_append]

/-! ### What is stored -/

/-- The bytes of a sink that has stored everything whole. -/
theorem bytes_of_whole (whole : sink.torn = []) :
    sink.bytes render = (sink.text render).toUTF8 := by
  rw [bytes, whole]
  exact ByteArray.append_empty

theorem text_extend_eq_lines (items : List α) :
    (sink.extend render items).text render = sink.text render ++ lines render items := by
  rw [text, text, extend, Array.foldl_append, List.foldl_toArray]
  generalize sink.items.foldl (fun lines item => lines ++ line (render item)) "" = front
  induction items generalizing front with
  | nil => simp
  | cons item items ih => rw [List.foldl_cons, ih, lines_cons, String.append_assoc]

theorem bytes_extend (items : List α) (whole : sink.torn = []) :
    (sink.extend render items).bytes render =
      sink.bytes render ++ (lines render items).toUTF8 := by
  have whole' : (sink.extend render items).torn = [] := whole
  rw [bytes_of_whole whole', bytes_of_whole whole, text_extend_eq_lines,
    String.toUTF8_eq_toByteArray, String.toByteArray_append]
  rfl

theorem extract_toUTF8_of_le {text : String} {n : Nat} (fits : text.utf8ByteSize ≤ n) :
    text.toUTF8.extract 0 n = text.toUTF8 := by
  refine ByteArray.ext ?_
  rw [ByteArray.data_extract]
  exact Array.extract_eq_self_of_le fits

/-- An item that fits is stored whole. -/
theorem write_of_fits {n : Nat} {item : α} (room : sink.room = some n)
    (fits : (line (render item)).utf8ByteSize ≤ n) :
    sink.write render item = (.ok (), sink.extend render [item]) := by
  simp [write, room, fits, extend]

/-- The first bytes of an item that does not fit are stored. -/
theorem write_of_overflows {n : Nat} {item : α} (room : sink.room = some n)
    (whole : sink.torn = []) (overflows : n < (line (render item)).utf8ByteSize) :
    ∃ sink', sink.write render item = (.error .sinkFull, sink') ∧
      sink'.bytes render = sink.bytes render ++ (line (render item)).toUTF8.extract 0 n := by
  rw [write, room]
  dsimp only
  rw [if_neg (Nat.not_le.mpr overflows)]
  refine ⟨_, rfl, ?_⟩
  rw [bytes_of_whole whole, bytes, text, text, whole, List.nil_append]
  congr 1
  refine ByteArray.ext ?_
  rw [ByteArray.data_extract, Utf8.encode, ← Array.toList_inj]
  simp

/-- **A limited sink keeps the first bytes.** As many bytes of the items are stored as the sink
accepts, and writing fails exactly if these are not all. -/
theorem bytes_writeAll_of_limited {n : Nat} (items : List α) (room : sink.room = some n)
    (whole : sink.torn = []) :
    (sink.writeAll render items).1 =
        (if (lines render items).utf8ByteSize ≤ n then .ok () else .error .sinkFull) ∧
      (sink.writeAll render items).2.bytes render =
        sink.bytes render ++ (lines render items).toUTF8.extract 0 n := by
  induction items generalizing sink n with
  | nil =>
    refine ⟨by simp [writeAll], ?_⟩
    rw [writeAll, lines_nil, extract_toUTF8_of_le (Nat.zero_le n)]
    exact ByteArray.append_empty.symm
  | cons item items ih =>
    have front : (lines render (item :: items)).toUTF8.extract 0 n =
        (line (render item)).toUTF8.extract 0 n ++ (lines render items).toUTF8.extract 0
          (n - (line (render item)).utf8ByteSize) := by
      rw [lines_cons, String.toUTF8_eq_toByteArray, String.toByteArray_append,
        ByteArray.extract_append, Nat.zero_sub]
      rfl
    have size : (lines render (item :: items)).utf8ByteSize =
        (line (render item)).utf8ByteSize + (lines render items).utf8ByteSize := by
      rw [lines_cons, String.utf8ByteSize_append]
    rw [writeAll, front, size]
    by_cases fits : (line (render item)).utf8ByteSize ≤ n
    · have left : (sink.extend render [item]).room =
          some (n - (line (render item)).utf8ByteSize) := by simp [extend, room]
      obtain ⟨result, bytes⟩ := ih left whole
      rw [write_of_fits room fits]
      dsimp only
      constructor
      · rw [result]
        congr 1
        exact propext (by omega)
      · rw [bytes, bytes_extend [item] whole, extract_toUTF8_of_le fits, ByteArray.append_assoc,
          lines_cons, lines_nil, String.append_empty]
    · obtain ⟨sink', torn, bytes⟩ := write_of_overflows room whole (Nat.lt_of_not_le fits)
      rw [torn, if_neg (by omega), Nat.sub_eq_zero_of_le (Nat.le_of_not_le fits),
        ByteArray.extract_same, ByteArray.append_empty]
      exact ⟨rfl, bytes⟩

end JackCompiler.Sink
