import DdsApps.Config.ConfigPath

/-!
# The directory of the executable

`std::string(buf)` stops at a zero that `readlink` has not written. What lies between the path and
that zero is taken for a part of the path.

* `cString_readlink` — what is read: the path, and what was in the buffer behind it
* `config_path_iff` — a byte that was not written is always read; the directory is right exactly if
  there is a zero behind the path, and no `/` before it
* `leftover_slash` — a path with a `/` behind it
-/

namespace DdsApps.Config

open DdsApps.Infra

variable {exe : List UInt8} {buf : Buffer bufSize}

/-! ## What is read -/

/-- The zero the scan stops at is among the bytes written, and so is all before it. -/
def ReadsWritten (r : Readlink) : Prop :=
  ∃ s, cString r.buf.toList = some s ∧ (s.length + 1 : Int) ≤ r.v

/-- A path that fills the buffer is cut, and nothing is left behind it. -/
theorem readlink_buf (exe : List UInt8) (buf : Buffer bufSize) :
    (readlink exe buf).buf.toList = exe.take bufSize ++ buf.toList.drop exe.length := by
  have hdrop : buf.toList.drop (min exe.length bufSize) = buf.toList.drop exe.length := by
    rcases Nat.le_total exe.length bufSize with hle | hge
    · rw [Nat.min_eq_left hle]
    · have hlen := buf.toList_length
      rw [Nat.min_eq_right hge, List.drop_of_length_le hlen.le,
        List.drop_of_length_le (hlen.le.trans hge)]
  show exe.take bufSize ++ buf.toList.drop (min exe.length bufSize) = _
  rw [hdrop]

/-- **The path is read, and what was in the buffer behind it up to a zero.** -/
theorem cString_readlink (hzero : 0 ∉ exe) (buf : Buffer bufSize) :
    cString (readlink exe buf).buf.toList
      = (cString (buf.toList.drop exe.length)).map (exe ++ ·) := by
  rw [readlink_buf, cString_append fun h => hzero (List.mem_of_mem_take h)]
  rcases Nat.lt_or_ge exe.length bufSize with hlt | hge
  · rw [List.take_of_length_le hlt.le]
  · have hlen := buf.toList_length
    rw [List.drop_of_length_le (hlen.le.trans hge)]
    rfl

/-- The zero is none of the bytes of the path. -/
theorem not_readsWritten (hzero : 0 ∉ exe) (buf : Buffer bufSize) :
    ¬ReadsWritten (readlink exe buf) := by
  rintro ⟨s, hs, hle⟩
  rw [cString_readlink hzero] at hs
  obtain ⟨rest, -, rfl⟩ := Option.map_eq_some_iff.mp hs
  have hv : (readlink exe buf).v = (min exe.length bufSize : Nat) := rfl
  rw [hv, List.length_append] at hle
  omega

/-! ## What it is taken for -/

/-- `d` is `p` up to and including its last `/`. -/
def IsDirectory (d p : List UInt8) : Prop :=
  ∃ pre name, p = pre ++ slash :: name ∧ slash ∉ name ∧ d = pre ++ [slash]

/-- `rfind` and `substr` take a path apart at its last `/`. -/
theorem upToSlash_append {name : List UInt8} (hname : slash ∉ name) (pre : List UInt8) :
    upToSlash (pre ++ slash :: name) = pre ++ [slash] := by
  unfold upToSlash
  rw [rfind_append_cons hname]
  show (pre ++ slash :: name).take (pre.length + 1) = _
  rw [List.append_cons, List.take_left' (by rw [List.length_append, List.length_singleton])]

theorem readlink_v (exe : List UInt8) (buf : Buffer bufSize) : (readlink exe buf).v ≠ -1 := by
  show ((min exe.length bufSize : Nat) : Int) ≠ -1
  omega

/-- **What is left in the buffer matters if there is a `/` in it.** -/
theorem fullpath_of_leftover (hzero : 0 ∉ exe) (hslash : slash ∈ exe) {rest : List UInt8}
    (hrest : cString (buf.toList.drop exe.length) = some rest) :
    (∃ d, fullpath (readlink exe buf) = some d ∧ IsDirectory d exe) ↔ slash ∉ rest := by
  unfold fullpath
  rw [if_pos (readlink_v exe buf), cString_readlink hzero, hrest, Option.map_some, Option.map_some]
  by_cases hleft : slash ∈ rest
  · -- the part up to the last `/` is longer than the path itself
    obtain ⟨pre, name, rfl, hname⟩ := exists_last hleft
    rw [← List.append_assoc, upToSlash_append hname]
    refine iff_of_false ?_ (not_not.mpr hleft)
    rintro ⟨d, hd, pre', name', rfl, -, rfl⟩
    have hlen := congrArg List.length (Option.some.inj hd)
    simp only [List.length_append, List.length_cons, List.length_nil] at hlen
    omega
  · obtain ⟨pre, name, rfl, hname⟩ := exists_last hslash
    have hbehind : slash ∉ name ++ rest := fun h =>
      (List.mem_append.mp h).elim hname hleft
    rw [List.append_assoc, List.cons_append, upToSlash_append hbehind]
    exact iff_of_true ⟨_, rfl, pre, name, rfl, hname, rfl⟩ hleft

/-! ## Main result -/

/--
**A byte that `readlink` has not written is read for every path and every buffer.**

The path is right all the same exactly if what was left behind it in the buffer has a zero, and no
`/` before that. With a path of 255 bytes or more there is nothing left behind it.
-/
theorem config_path_iff :
    ∀ main ∈ fullpaths, ∀ exe : List UInt8, 0 ∉ exe → exe.head? = some slash →
      ∀ buf : Buffer bufSize,
        ¬ReadsWritten (readlink exe buf) ∧
        ((∃ d, main (readlink exe buf) = some d ∧ IsDirectory d exe) ↔
          ∃ rest, cString (buf.toList.drop exe.length) = some rest ∧ slash ∉ rest) := by
  refine forall_fullpaths ?_
  intro exe hzero habsolute buf
  refine ⟨not_readsWritten hzero buf, ?_⟩
  have hslash : slash ∈ exe := List.mem_of_mem_head? habsolute
  cases hrest : cString (buf.toList.drop exe.length) with
  | none =>
    refine iff_of_false ?_ (fun ⟨_, h, _⟩ => nomatch h)
    rintro ⟨d, hd, -⟩
    unfold fullpath at hd
    rw [if_pos (readlink_v exe buf), cString_readlink hzero, hrest] at hd
    cases hd
  | some rest =>
    rw [fullpath_of_leftover hzero hslash hrest]
    constructor
    · exact fun hleft => ⟨rest, rfl, hleft⟩
    · rintro ⟨rest', heq, hleft⟩
      cases heq
      exact hleft

/-- A short path, in a buffer of zeros. -/
theorem zeroed_buffer_right :
    ∃ d, fullpath (readlink (bytes "/opt/app") (List.Vector.replicate bufSize 0)) = some d ∧
      IsDirectory d (bytes "/opt/app") :=
  ((config_path_iff fullpath (List.mem_cons_self ..) (bytes "/opt/app") (by decide +kernel)
    (by decide +kernel) (List.Vector.replicate bufSize 0)).2).mpr
    ⟨[], by decide +kernel, List.not_mem_nil⟩

/-- A buffer in which another path was before. -/
def usedBuffer : Buffer bufSize :=
  ⟨bytes "/usr/lib/libc.so" ++ List.replicate 239 0, by decide +kernel⟩

/-- **A `/` that was left in the buffer is taken for the last one**, in all three programs. -/
theorem leftover_slash :
    ¬∃ main ∈ fullpaths, ∀ exe : List UInt8, 0 ∉ exe → exe.head? = some slash →
      ∀ buf : Buffer bufSize, ReadsWritten (readlink exe buf) ∧
        ∃ d, main (readlink exe buf) = some d ∧ IsDirectory d exe := by
  rintro ⟨main, hmem, hall⟩
  revert main
  refine forall_fullpaths ?_
  intro hall
  have hleft : cString (usedBuffer.toList.drop (bytes "/app").length)
      = some (bytes "/lib/libc.so") := by
    decide +kernel
  have hright := (hall (bytes "/app") (by decide +kernel) (by decide +kernel) usedBuffer).2
  rw [fullpath_of_leftover (by decide +kernel) (by decide +kernel) hleft] at hright
  exact hright (by decide +kernel)

end DdsApps.Config
