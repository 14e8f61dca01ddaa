import JobWatch.Identity
import JobWatch.Proofs.Settings.Without
import JobWatch.Proofs.Text.Digits

/-!
# Overrides by variables

The text of a variable is taken for a truth value or a number where it reads as one, and this is
written as a text again for a setting that is a text. The text comes through as it is only if it
reads as neither or is written in the form that such values are written in.
-/

set_option autoImplicit false

namespace JobWatch

open JobWatch.Text JobWatch.Text.Parser

namespace Number

end Number

namespace Environment

end Environment

namespace Settings

open SettingValue

def numbered : Sources where
  defaultFile := none
  localFile := none
  environment := [("APP__AGENT__PROCESS_ID", "12"), ("APP__SCHEDULING__ENABLED", "no")]

end Settings

end JobWatch
