import DdsApps.Infra.CLib
import DdsApps.Options.PrintUsage

/-!
# The help of the programs

The help texts of the six programs with an option parser, and the width that they are printed with.
-/

namespace DdsApps.Options.Usage

open DdsApps.Infra

/-- A string literal of a `Descriptor`, of the characters `cs`. -/
def helpText (s : String) {cs : List Char} (_ : String.ofList cs = s := by exact rfl)
    (h : 0 ∉ cs.map Char.toUInt8 ∧ 0xFF ∉ cs.map Char.toUInt8 := by decide +kernel) :
    Option HelpText := some ⟨cs.map Char.toUInt8, h⟩

/-- The programs that print their usage. -/
inductive Program
  | HelloWorldExample
  | HelloWorldExampleTCP
  | HeaderTest
  | ImageTest
  | PointCloudTest
  | TransformStampedTest
deriving DecidableEq, Repr

/-- What the programs with sample ranges have after their first text. -/
def rangeHelp : HelpTexts :=
  [helpText "  -h \t--help  \tProduce help message.",
    helpText "\nPublisher options:",
    helpText "  -s <num>, \t--samples=<num>  \tNumber of samples (0, default, infinite).",
    helpText
      "  -i <num>, \t--interval=<num>  \tTime between samples in milliseconds (Default: 100).",
    helpText "  -e \t--env   \tLoad QoS from environment."]

/-- `usage`, without its last entry -/
def Program.usage : Program → HelpTexts
  | .HelloWorldExample =>
    helpText "Usage: HelloWorldExample <publisher|subscriber>\n\nGeneral options:" :: rangeHelp
  | .HeaderTest =>
    helpText "Usage: HeaderExample <publisher|subscriber>\n\nGeneral options:" :: rangeHelp
  | .ImageTest =>
    helpText "Usage: ImageExample <publisher|subscriber>\n\nGeneral options:" :: rangeHelp
  | .PointCloudTest =>
    helpText "Usage: PointCloudExample <publisher|subscriber>\n\nGeneral options:" :: rangeHelp
  | .TransformStampedTest =>
    helpText
      "Usage: TransformStampedExample <publisher|subscriber>\n\nGeneral options:" :: rangeHelp
  | .HelloWorldExampleTCP =>
    [helpText "Usage: HelloWorldExampleTCP <publisher|subscriber>\n\nGeneral options:",
      helpText "  -h \t--help  \tProduce help message.",
      helpText "  -t \t--tls \tUse TLS.",
      helpText "  -w \t--whitelist \tUse Whitelist.",
      helpText "\nPublisher options:",
      helpText "  -s <num>, \t--samples=<num>  \tNumber of samples (0, default, infinite).",
      helpText
        "  -i <num>, \t--interval=<num>  \tTime between samples in milliseconds (Default: 100).",
      helpText
        "  -a <address>, \t--address=<address> \tPublic IP Address of the publisher (Default: None).",
      helpText
        "  -p <num>, \t--port=<num>  \tPhysical Port to listening incoming connections (Default: 5100).",
      helpText "\nSubscriber options:",
      helpText
        "  -a <address>, \t--address=<address> \tIP Address of the publisher (Default: 10.0.2.15).",
      helpText
        "  -p <num>, \t--port=<num>  \tPhysical Port where the publisher is listening for connections (Default: 5100)."]

end DdsApps.Options.Usage
