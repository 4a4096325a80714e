import Mathlib.Data.List.Basic

/-!
# An in-memory file with a position

Reads and writes happen at `pos` and move it; `write` past the end pads with zeros, `truncate` cuts
the buffer at `pos`. The lemmas are the three situations a producer is in: writing at the end,
reading everything back after `seek 0`, and starting over after `seek 0` and `truncate`.
-/

structure ByteSink where
  buf : List UInt8
  pos : Nat
  deriving DecidableEq, Repr

namespace ByteSink

def empty : ByteSink := ⟨[], 0⟩

def write (s : ByteSink) (bs : List UInt8) : ByteSink where
  buf := s.buf.take s.pos ++ List.replicate (s.pos - s.buf.length) 0 ++ bs ++
    s.buf.drop (s.pos + bs.length)
  pos := s.pos + bs.length

def seek (s : ByteSink) (n : Nat) : ByteSink := { s with pos := n }

/-- The bytes `read` returns. -/
def rest (s : ByteSink) : List UInt8 := s.buf.drop s.pos

/-- The sink after `read`. -/
def read (s : ByteSink) : ByteSink := { s with pos := max s.pos s.buf.length }

def truncate (s : ByteSink) : ByteSink := { s with buf := s.buf.take s.pos }

/-- The position is at the end of the buffer. -/
def AtEnd (s : ByteSink) : Prop := s.pos = s.buf.length

variable {s : ByteSink}

@[simp] theorem empty_buf : empty.buf = [] := rfl

theorem atEnd_empty : empty.AtEnd := rfl

theorem AtEnd.write_buf (h : s.AtEnd) (bs : List UInt8) : (s.write bs).buf = s.buf ++ bs := by
  have hp : s.pos = s.buf.length := h
  simp [write, hp, List.drop_eq_nil_of_le]

@[simp] theorem empty_write_buf (bs : List UInt8) : (empty.write bs).buf = bs :=
  atEnd_empty.write_buf bs

theorem AtEnd.write (h : s.AtEnd) (bs : List UInt8) : (s.write bs).AtEnd := by
  show s.pos + bs.length = (s.write bs).buf.length
  rw [h.write_buf, List.length_append]
  exact congrArg (· + bs.length) h

@[simp] theorem seek_zero_rest (s : ByteSink) : (s.seek 0).rest = s.buf := rfl

@[simp] theorem seek_zero_read_buf (s : ByteSink) : (s.seek 0).read.buf = s.buf := rfl

theorem seek_zero_read_atEnd (s : ByteSink) : (s.seek 0).read.AtEnd := by
  simp [AtEnd, read, seek]

@[simp] theorem seek_zero_truncate (s : ByteSink) : (s.seek 0).truncate = empty := by
  simp [truncate, seek, empty]

end ByteSink
