import DdsApps.Infra.CStrings

/-!
# Where the configuration is looked for

The three programs with a configuration ask `readlink` for the path of their executable, and look
for the file in a directory below that of the executable. `readlink` puts no zero behind the path.
-/

namespace DdsApps.Config

open DdsApps.Infra

/-- `BUFSIZE` -/
def bufSize : Nat := 255

/-- What `readlink` returns, and the buffer after it. -/
structure Readlink where
  v : Int
  buf : Buffer bufSize

/-- `readlink("/proc/self/exe", buf, sizeof(buf))`, for an executable at `exe`. -/
def readlink (exe : List UInt8) (buf : Buffer bufSize) : Readlink where
  v := (min exe.length bufSize : Nat)
  buf := ⟨exe.take bufSize ++ buf.toList.drop (min exe.length bufSize), by
    have hlen := buf.toList_length
    simp only [List.length_append, List.length_take, List.length_drop, hlen]
    omega⟩

/-- `'/'` -/
def slash : UInt8 := 47

/-- `fullpath.substr(0, pos1 + 1)`, where `rfind` has found something. -/
def upToSlash (fullpath : List UInt8) : List UInt8 :=
  match rfind slash fullpath with
  | some pos1 => fullpath.take (pos1 + 1)
  | none => fullpath

/-- `fullpath` in `main`; `none` where `std::string(buf)` leaves the buffer. -/
def fullpath (r : Readlink) : Option (List UInt8) :=
  if r.v ≠ -1 then (cString r.buf.toList).map upToSlash else some []

def CustomROSTypeDataPublisher.fullpath := Config.fullpath

def CustomROSTypeDataSubscriber.fullpath := Config.fullpath

def CyclicROSDataPublisher.fullpath := Config.fullpath

/-- The three programs. -/
def fullpaths : List (Readlink → Option (List UInt8)) :=
  [CustomROSTypeDataPublisher.fullpath, CustomROSTypeDataSubscriber.fullpath,
    CyclicROSDataPublisher.fullpath]

theorem forall_fullpaths {P : (Readlink → Option (List UInt8)) → Prop} (h : P fullpath) :
    ∀ main ∈ fullpaths, P main := by
  simp only [fullpaths, List.forall_mem_cons, List.not_mem_nil, false_implies, implies_true,
    and_true]
  exact ⟨h, h, h⟩

end DdsApps.Config
