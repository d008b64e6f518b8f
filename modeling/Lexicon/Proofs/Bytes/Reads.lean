/-
Module: Lexicon.Proofs.Bytes.Reads
Layer: Proofs
Purpose: Which bytes a reader takes for a value, whatever stands before and behind them, what holds
  of all that it gives, and what growing and overwriting a buffer leaves of the bytes that it shows.
Imports: Lexicon.Bytes.Buffer, Lexicon.Bytes.Cursor
Trusted boundary: none
Main exports: Buffer.Shows, Buffer.Shows.append, Buffer.bytes_overwrite, Reader.Reads,
  Reader.Reads.bind, Reader.Yields, Reader.runAt_of_shows
-/
import Lexicon.Bytes.Buffer
import Lexicon.Bytes.Cursor

namespace Lexicon

/-- Where two steps succeed, each of them does. -/
theorem exists_of_bind {ε α β : Type} {first : Except ε α} {next : α → Except ε β} {answer : β}
    (done : first >>= next = .ok answer) :
    ∃ value, first = .ok value ∧ next value = .ok answer := by
  cases first with
  | error error => cases done
  | ok value => exact ⟨value, rfl, done⟩

/-- A check is passed by all when each passes it. -/
theorem forM_eq_ok_iff {ε α : Type} {items : List α} {check : α → Except ε Unit} :
    items.forM check = .ok () ↔ ∀ item ∈ items, check item = .ok () := by
  induction items with
  | nil => simp [pure, Except.pure]
  | cons item items ih =>
      rw [List.forall_mem_cons, ← ih, List.forM]
      cases check item with
      | error fault => simp [bind, Except.bind]
      | ok done => simp [bind, Except.bind]

/-! ### Bytes of a buffer -/

namespace Buffer

/-- The bytes of a buffer as a list. -/
def bytes (buffer : ByteArray) : List UInt8 := buffer.data.toList

@[simp] theorem length_bytes (buffer : ByteArray) : (bytes buffer).length = buffer.size := by
  simp [bytes]

@[simp] theorem bytes_append (buffer : ByteArray) (more : List UInt8) :
    bytes (append buffer more) = bytes buffer ++ more := by
  simp [bytes, append]

/-- Overwriting inside a buffer replaces as many bytes as are written. -/
theorem bytes_overwrite {buffer : ByteArray} {before old after : List UInt8}
    (content : bytes buffer = before ++ old ++ after) {new : List UInt8}
    (same : new.length = old.length) :
    bytes (overwrite buffer before.length new) = before ++ new ++ after := by
  induction new generalizing buffer before old with
  | nil =>
      cases old with
      | nil => exact content
      | cons => cases same
  | cons byte new ih =>
      cases old with
      | nil => cases same
      | cons replaced old =>
          have inside : before.length < buffer.size := by
            rw [← length_bytes, content]
            simp
          have next : bytes (buffer.set before.length byte inside) =
              before ++ [byte] ++ old ++ after := by
            rw [bytes, ByteArray.data_set, Array.toList_set, ← bytes, content]
            simp
          have rest := ih next (Nat.succ.inj same)
          rw [List.length_append, List.length_singleton] at rest
          rw [overwrite, dif_pos inside, rest]
          simp

/-- Some bytes stand in a buffer from an offset on. -/
def Shows (buffer : ByteArray) (offset : Nat) (shown : List UInt8) : Prop :=
  ∃ after, (bytes buffer).drop offset = shown ++ after

namespace Shows

variable {buffer : ByteArray} {offset : Nat} {shown : List UInt8}

/-- What a buffer shows it shows also when it has grown. -/
theorem append (shows : Shows buffer offset shown) (more : List UInt8) :
    Shows (append buffer more) offset shown := by
  obtain ⟨after, view⟩ := shows
  by_cases inside : offset ≤ (bytes buffer).length
  · refine ⟨after ++ more, ?_⟩
    rw [bytes_append, List.drop_append_of_le_length inside, view, List.append_assoc]
  · rw [List.drop_eq_nil_of_le (by omega)] at view
    obtain ⟨rfl, -⟩ := List.append_eq_nil_iff.mp view.symm
    exact ⟨_, rfl⟩

/-- Bytes that were appended stand where the buffer ended before. -/
theorem appended (buffer : ByteArray) (more : List UInt8) :
    Shows (Buffer.append buffer more) buffer.size more := by
  refine ⟨[], ?_⟩
  rw [bytes_append, ← length_bytes, List.drop_left, List.append_nil]

/-- The first of some bytes stand where all of them stand. -/
theorem left {more : List UInt8} (shows : Shows buffer offset (shown ++ more)) :
    Shows buffer offset shown := by
  obtain ⟨after, view⟩ := shows
  exact ⟨more ++ after, by rw [view, List.append_assoc]⟩

/-- Bytes that stand between others stand at the length of those before them. -/
theorem between {before after : List UInt8} (content : bytes buffer = before ++ shown ++ after) :
    Shows buffer before.length shown := by
  refine ⟨after, ?_⟩
  rw [content, List.append_assoc, List.drop_left]

theorem length_le (shows : Shows buffer offset shown) (some : shown ≠ []) :
    offset + shown.length ≤ buffer.size := by
  obtain ⟨after, view⟩ := shows
  have length := congrArg List.length view
  have positive := List.length_pos_iff.mpr some
  rw [List.length_drop, length_bytes, List.length_append] at length
  omega

end Shows

end Buffer

/-! ### Readers and the bytes that they take -/

namespace Reader

variable {α β : Type}

/-- A reader takes just these bytes for a value, whatever follows them. -/
def Reads (reader : Reader α) (encoded : List UInt8) (value : α) : Prop :=
  ∀ (cursor : Cursor) (after : List UInt8), cursor.rest = encoded ++ after →
    reader cursor = some (value, { cursor with position := cursor.position + encoded.length })

theorem rest_advance {cursor : Cursor} {encoded after : List UInt8}
    (view : cursor.rest = encoded ++ after) :
    Cursor.rest { cursor with position := cursor.position + encoded.length } = after := by
  rw [Cursor.rest] at view ⊢
  rw [← List.drop_drop, view, List.drop_left]

namespace Reads

theorem pure (value : α) : Reads (Pure.pure value) [] value := fun _ _ _ => rfl

/-- One value after the other is read from their bytes one after the other. -/
theorem bind {first : Reader α} {next : α → Reader β} {encoded further : List UInt8} {value : α}
    {answer : β} (reads : Reads first encoded value) (readsNext : Reads (next value) further answer) :
    Reads (first >>= next) (encoded ++ further) answer := by
  intro cursor after view
  rw [List.append_assoc] at view
  have rest := readsNext _ after (rest_advance view)
  show (first cursor >>= fun outcome => next outcome.1 outcome.2) = _
  rw [reads cursor _ view, Option.bind_eq_bind, Option.bind_some]
  dsimp only
  rw [rest, List.length_append, Nat.add_assoc]

/-- What is made of a value that was read takes no bytes of its own. -/
theorem map {first : Reader α} {encoded : List UInt8} {value : α} (reads : Reads first encoded value)
    (make : α → β) : Reads (first >>= fun value => Pure.pure (make value)) encoded (make value) := by
  have whole : Reads (first >>= fun value => Pure.pure (make value)) (encoded ++ []) (make value) :=
    reads.bind (pure (make value))
  rwa [List.append_nil] at whole

theorem byte (value : UInt8) : Reads byte [value] value := by
  intro cursor after view
  rw [byte_eq_some_iff]
  refine ⟨?_, rfl⟩
  rw [rest_advance view, view]
  rfl

theorem number {width value : Nat} (fits : value < LittleEndian.span width) :
    Reads (number width) (LittleEndian.encode width value) value := by
  induction width generalizing value with
  | zero =>
      have zero : value = 0 := Nat.lt_one_iff.mp fits
      subst zero
      exact pure 0
  | succ width ih =>
      have high : value / 256 < LittleEndian.span width :=
        Nat.div_lt_of_lt_mul fits
      have joined : Reads (Reader.number (width + 1)) (LittleEndian.encode (width + 1) value)
          ((UInt8.ofNat value).toNat + 256 * (value / 256)) :=
        (byte (UInt8.ofNat value)).bind
          ((ih high).map fun high => (UInt8.ofNat value).toNat + 256 * high)
      have sum : (UInt8.ofNat value).toNat + 256 * (value / 256) = value := by
        rw [UInt8.toNat_ofNat']
        omega
      rw [sum] at joined
      exact joined

theorem signed (value : Int32) : Reads signed (LittleEndian.encodeSigned value) value := by
  have fits : value.toUInt32.toNat < LittleEndian.span 4 := value.toUInt32.toNat_lt
  have whole := (number fits).map LittleEndian.signedOfNat
  rwa [LittleEndian.signedOfNat_toNat] at whole

/-- Values of one kind are read one after the other. -/
theorem times {reader : Reader α} {encode : α → List UInt8} {values : List α}
    (each : ∀ value ∈ values, Reads reader (encode value) value) :
    Reads (times reader values.length) (values.flatMap encode) values := by
  induction values with
  | nil => exact pure []
  | cons value values ih =>
      have first := each value List.mem_cons_self
      have others := ih fun other among => each other (List.mem_cons_of_mem _ among)
      have joined : Reads (Reader.times reader (values.length + 1))
          (encode value ++ values.flatMap encode) (value :: values) :=
        first.bind (others.map fun others => value :: others)
      exact joined

end Reads

/-! ### What readers give -/

/-- Whatever bytes the reader meets, something holds of what it makes of them. -/
def Yields (reader : Reader α) (holds : α → Prop) : Prop :=
  ∀ (cursor next : Cursor) (value : α), reader cursor = some (value, next) → holds value

namespace Yields

variable {holds : α → Prop} {wants : β → Prop}

theorem any (reader : Reader α) : Yields reader fun _ => True := fun _ _ _ _ => trivial

theorem pure {value : α} (fact : holds value) : Yields (Pure.pure value) holds := by
  intro cursor next value done
  cases done
  exact fact

theorem bind {first : Reader α} {next : α → Reader β} (yields : Yields first holds)
    (rest : ∀ value, holds value → Yields (next value) wants) : Yields (first >>= next) wants := by
  intro cursor last answer done
  change (first cursor).bind (fun outcome => next outcome.1 outcome.2) = _ at done
  obtain ⟨⟨value, middle⟩, found, done⟩ := Option.bind_eq_some_iff.mp done
  exact rest value (yields _ _ _ found) _ _ _ done

theorem number (width : Nat) : Yields (number width) (· < LittleEndian.span width) := by
  induction width with
  | zero => exact pure Nat.one_pos
  | succ width ih =>
      refine (any byte).bind fun low _ => ih.bind fun high small => pure ?_
      have byte := low.toNat_lt
      rw [LittleEndian.span]
      omega

end Yields

/-! ### Reading at an offset -/

/-- What is read at an offset of a buffer that shows the bytes of a value. -/
theorem runAt_of_shows {reader : Reader α} {buffer : ByteArray} {offset : Nat}
    {encoded : List UInt8} {value : α} (reads : Reads reader encoded value)
    (shows : Buffer.Shows buffer offset encoded) :
    runAt reader buffer offset = some (value, encoded.length) := by
  obtain ⟨after, view⟩ := shows
  unfold runAt
  rw [reads { bytes := buffer, position := offset } after view]
  simp

end Reader

end Lexicon
