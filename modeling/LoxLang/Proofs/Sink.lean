/-
# What sinks have taken

A sink takes bytes and gives none back, so what it has taken before an action begins what
it has taken after it. A sink with less room takes the same bytes as long as they fit, and
when they do not it has exactly the beginning that does.
-/

import LoxLang.Sink

namespace LoxLang.Sink

/-- The sink after it took more bytes. -/
def taking (sink : Sink) (bytes : ByteArray) : Sink :=
  { sink with written := sink.written ++ bytes }

/-- The sink takes everything, and can be flushed. -/
structure Works (sink : Sink) : Prop where
  boundless : sink.capacity = none
  flushes : sink.flushFails = false
  willing : sink.refusals = []

/-- The sink later, if nothing interferes with it: it has taken more bytes, and it is
past some of its refusals. -/
def Grows (before after : Sink) : Prop :=
  ∃ bytes refusals, after = { before.taking bytes with refusals := refusals } ∧
    (before.refusals = [] → refusals = [])

/-- The sink with a capacity, and of what it has taken only the beginning that it has
the capacity for. -/
def keeping (capacity : Nat) (sink : Sink) : Sink :=
  { sink with capacity := some capacity, written := sink.written.extract 0 capacity }

variable {sink first second third : Sink} {bytes : ByteArray}

/-! ## Sinks that grow -/

theorem taking_empty (sink : Sink) : sink.taking ByteArray.empty = sink := by
  rw [taking, ByteArray.append_empty]

theorem taking_taking (sink : Sink) (bytes more : ByteArray) :
    (sink.taking bytes).taking more = sink.taking (bytes ++ more) := by
  rw [taking, taking, taking, ByteArray.append_assoc]

theorem grows_taking (sink : Sink) (bytes : ByteArray) : sink.Grows (sink.taking bytes) :=
  ⟨bytes, sink.refusals, rfl, id⟩

theorem Grows.refl (sink : Sink) : sink.Grows sink :=
  ⟨ByteArray.empty, sink.refusals, by rw [taking_empty], id⟩

theorem Grows.trans (h : first.Grows second) (hlater : second.Grows third) : first.Grows third := by
  obtain ⟨bytes, refusals, rfl, hwilling⟩ := h
  obtain ⟨more, later, rfl, hstill⟩ := hlater
  exact ⟨bytes ++ more, later, by simp only [taking, ByteArray.append_assoc],
    fun hnone => hstill (hwilling hnone)⟩

theorem Grows.exists_written {after : Sink} (h : sink.Grows after) :
    ∃ bytes, after.written = sink.written ++ bytes := by
  obtain ⟨bytes, _, rfl, _⟩ := h
  exact ⟨bytes, rfl⟩

theorem next_nil : Refusal.next [] = (none, []) := rfl

theorem grows_write (sink : Sink) (bytes : ByteArray) : sink.Grows (sink.write bytes).2 := by
  obtain ⟨capacity, flushFails, written, refusals⟩ := sink
  have hwilling (hnone : refusals = []) : (Refusal.next refusals).2 = [] := by
    rw [hnone, next_nil]
  rw [write]
  dsimp only
  split
  next refusal later heq =>
    rw [heq] at hwilling
    exact ⟨bytes.extract 0 refusal.taken, later, rfl, hwilling⟩
  next later heq =>
    rw [heq] at hwilling
    cases capacity with
    | none => exact ⟨bytes, later, rfl, hwilling⟩
    | some limit =>
        dsimp only
        split
        · exact ⟨bytes, later, rfl, hwilling⟩
        · exact ⟨bytes.extract 0 (limit - written.size), later, rfl, hwilling⟩

theorem grows_flush (sink : Sink) : sink.Grows sink.flush.2 := by
  have hwilling (hnone : sink.refusals = []) : (Refusal.next sink.refusals).2 = [] := by
    rw [hnone, next_nil]
  have hmoved (later : List Refusal) : { sink with refusals := later } =
      { sink.taking ByteArray.empty with refusals := later } := by
    rw [taking_empty]
  rw [flush]
  split
  next refusal later heq =>
    rw [heq] at hwilling
    exact ⟨ByteArray.empty, later, hmoved later, hwilling⟩
  next later heq =>
    rw [heq] at hwilling
    exact ⟨ByteArray.empty, later, hmoved later, hwilling⟩

theorem size_le_of_grows {after : Sink} (h : sink.Grows after) :
    sink.written.size ≤ after.written.size := by
  obtain ⟨bytes, hbytes⟩ := h.exists_written
  rw [hbytes, ByteArray.size_append]
  exact Nat.le_add_right _ _

/-! ## Sinks that work -/

theorem works_unlimited : Sink.unlimited.Works :=
  ⟨rfl, rfl, rfl⟩

theorem Works.taking (h : sink.Works) (bytes : ByteArray) : (sink.taking bytes).Works :=
  ⟨h.boundless, h.flushes, h.willing⟩

/-- A sink that works changes in nothing but in what it has taken. -/
theorem Works.eq_taking {after : Sink} (h : sink.Works) (hgrows : sink.Grows after) :
    ∃ bytes, after = sink.taking bytes := by
  obtain ⟨bytes, refusals, rfl, hwilling⟩ := hgrows
  refine ⟨bytes, ?_⟩
  rw [hwilling h.willing, ← h.willing]
  rfl

theorem Works.grows {after : Sink} (h : sink.Works) (hgrows : sink.Grows after) : after.Works := by
  obtain ⟨bytes, rfl⟩ := h.eq_taking hgrows
  exact h.taking bytes

theorem Works.write (h : sink.Works) (bytes : ByteArray) :
    sink.write bytes = (none, sink.taking bytes) := by
  obtain ⟨capacity, flushFails, written, refusals⟩ := sink
  have hcapacity : capacity = none := h.boundless
  have hwilling : refusals = [] := h.willing
  rw [hcapacity, hwilling]
  rfl

theorem Works.flush (h : sink.Works) : sink.flush = (none, sink) := by
  obtain ⟨capacity, flushFails, written, refusals⟩ := sink
  have hflushes : flushFails = false := h.flushes
  have hwilling : refusals = [] := h.willing
  rw [hflushes, hwilling]
  rfl

theorem Works.report (h : sink.Works) (text : String) :
    sink.report text = (none, sink.taking (text ++ "\n").toUTF8) := by
  rw [Sink.report, writeLine, h.write]
  exact (h.taking _).flush

/-! ## Sinks with less room -/

theorem extract_of_size_le {capacity : Nat} (h : bytes.size ≤ capacity) :
    bytes.extract 0 capacity = bytes := by
  rw [← Nat.max_eq_left h, ByteArray.extract_zero_max_size]

theorem extract_min (bytes : ByteArray) (room : Nat) :
    bytes.extract 0 (min room bytes.size) = bytes.extract 0 room := by
  rcases Nat.le_total room bytes.size with hshort | hlong
  · rw [Nat.min_eq_left hshort]
  · rw [Nat.min_eq_right hlong, ByteArray.extract_zero_size, extract_of_size_le hlong]

/-- Bytes for which there is no room are cut off, and this is the only failure. -/
theorem Works.write_keeping {capacity : Nat} (h : sink.Works)
    (hfits : sink.written.size ≤ capacity) (bytes : ByteArray) :
    (sink.keeping capacity).write bytes =
      (if (sink.taking bytes).written.size ≤ capacity then none else some .full,
        (sink.taking bytes).keeping capacity) := by
  have hextract : (sink.written ++ bytes).extract 0 capacity =
      sink.written ++ bytes.extract 0 (capacity - sink.written.size) := by
    rw [ByteArray.extract_append, extract_of_size_le hfits, Nat.zero_sub]
  rw [keeping, Sink.write, extract_of_size_le hfits, h.willing, next_nil, keeping, Sink.taking]
  dsimp only
  rw [ByteArray.size_append, hextract, h.willing]
  by_cases hroom : bytes.size ≤ capacity - sink.written.size
  · rw [if_pos hroom, if_pos (by omega), extract_of_size_le hroom]
  · rw [if_neg hroom, if_neg (by omega)]

theorem Works.flush_keeping (h : sink.Works) (capacity : Nat) :
    (sink.keeping capacity).flush = (none, sink.keeping capacity) := by
  obtain ⟨limit, flushFails, written, refusals⟩ := sink
  have hflushes : flushFails = false := h.flushes
  have hwilling : refusals = [] := h.willing
  rw [hflushes, hwilling]
  rfl

/-- A line that is reported to a sink with a capacity is cut off where the capacity is used up. -/
theorem Works.report_keeping {capacity : Nat} (h : sink.Works)
    (hfits : sink.written.size ≤ capacity) (text : String) :
    (sink.keeping capacity).report text =
      (if (sink.taking (text ++ "\n").toUTF8).written.size ≤ capacity then none else some .full,
        (sink.taking (text ++ "\n").toUTF8).keeping capacity) := by
  rw [Sink.report, Sink.writeLine, h.write_keeping hfits]
  by_cases hroom : (sink.taking (text ++ "\n").toUTF8).written.size ≤ capacity
  · rw [if_pos hroom]
    exact (h.taking _).flush_keeping capacity
  · rw [if_neg hroom]

/-- What is kept once the capacity is used up stays as it is. -/
theorem Works.keeping_of_grows {capacity : Nat} {after : Sink} (h : sink.Works)
    (hgrows : sink.Grows after) (hfull : capacity ≤ sink.written.size) :
    after.keeping capacity = sink.keeping capacity := by
  obtain ⟨bytes, rfl⟩ := h.eq_taking hgrows
  rw [keeping, keeping, Sink.taking]
  dsimp only
  rw [ByteArray.extract_append, Nat.zero_sub, Nat.sub_eq_zero_of_le hfull, ByteArray.extract_same,
    ByteArray.append_empty]

/-- With room for so many bytes more, a sink keeps so many of those that are written next. -/
theorem keeping_taking (sink : Sink) (bytes : ByteArray) (room : Nat) :
    (sink.taking bytes).keeping (sink.written.size + room) =
      (sink.keeping (sink.written.size + room)).taking (bytes.extract 0 room) := by
  rw [keeping, keeping, Sink.taking, Sink.taking]
  dsimp only
  rw [ByteArray.extract_append, Nat.zero_sub, Nat.add_sub_cancel_left]

end LoxLang.Sink
