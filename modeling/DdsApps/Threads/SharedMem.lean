import DdsApps.Threads.Publish

/-!
# The message in shared memory

`HelloWorldExampleSharedMem` writes messages of a megabyte. Its publisher leaves a mark at the end
of the data, for its subscriber to show that all of them have come.
-/

namespace DdsApps.Threads

open DdsApps.Infra

namespace SharedMem

open DdsApps.Types.SharedMem (HelloWorld dataSize)

/-- What `publish` does before `write`. The subtractions are of `size_t` and do not wrap. -/
def prepare (hello_ : HelloWorld) : Option HelloWorld :=
  let index := hello_.index + 1
  let s := bytes ("BigData" ++ toString (index % 10).toNat)
  (strcpy hello_.data (dataSize - s.length - 1) s).map fun data =>
    { hello_ with index := index, data := data }

/-- The publisher, after `init`. -/
def app : Publish.App HelloWorld where
  message := { HelloWorld.new with index := 0, message := bytes "HelloWorld" }
  prepare := prepare

theorem app_prepare : app.prepare = prepare := by rw [app]

/-- `(char*)&hello_->data()[data_size - 9]`, as the subscriber prints it. -/
def dataEnd (hello_ : HelloWorld) : Option (List UInt8) :=
  cString (hello_.data.toList.drop (dataSize - 9))

end SharedMem

end DdsApps.Threads
