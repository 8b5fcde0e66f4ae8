import DasIndexer.Schema.Values

/-!
# Ordering the instructions of a transaction

A transaction arrives as its outer instructions together with the groups of inner instructions that
their calls made, each group a flat list in execution order.  `orderInstructions` brings them into one
list: for every outer instruction first the inner instructions of known programs, then the outer
instruction itself.  Each entry carries the instructions that are taken to be its own calls: for an
outer instruction its whole group, for a hoisted one what follows it in the group up to the next
instruction of the same program (`hoistKnownPrograms`).

The stack height of an inner instruction is part of the input and is read by none of these functions.
-/

namespace DasIndexer

/-- `solana_message::CompiledInstruction`. -/
structure CompiledInstruction where
  programIdIndex : UInt8
  accounts : List UInt8
  data : Bytes
deriving DecidableEq

/-- `solana_transaction_status::InnerInstruction`. -/
structure InnerInstruction where
  instruction : CompiledInstruction
  stackHeight : Option ℕ
deriving DecidableEq

/-- `solana_transaction_status::InnerInstructions`: the inner instructions of one outer one. -/
structure InnerInstructions where
  index : UInt8
  instructions : List InnerInstruction
deriving DecidableEq

/-- An instruction with the program it calls. -/
abbrev IxPair := Pubkey × CompiledInstruction

/-- `blockbuster::instruction::InstructionBundle`. -/
structure InstructionBundle where
  txnId : String := ""
  program : Pubkey := Pubkey.default
  instruction : Option CompiledInstruction := none
  innerIx : Option (List IxPair) := none
  keys : List Pubkey := []
  slot : ℕ := 0
deriving DecidableEq

/-- The instructions of known programs in an inner list, each with what follows it up to the next
instruction of its own program. -/
def hoistKnownPrograms (programs : List Pubkey) (ixPairs : List IxPair) :
    List (IxPair × Option (List IxPair)) :=
  (ixPairs.zipIdx.filter fun e => decide (e.1.1 ∈ programs)).map fun e =>
    (e.1, some ((ixPairs.drop (e.2 + 1)).takeWhile fun q => decide (q.1 ≠ e.1.1)))

/-- `(account_keys[cix.program_id_index as usize], cix)`; `none` is the index panic. -/
def resolveInner (accountKeys : List Pubkey) (innerIx : InnerInstruction) : Option IxPair :=
  (accountKeys[innerIx.instruction.programIdIndex.toNat]?).map fun pid => (pid, innerIx.instruction)

/-- The inner instructions recorded for the outer instruction at a position. -/
def innerOf (metaInnerInstructions : List InnerInstructions) (outerInstructionIndex : ℕ) :
    List InnerInstruction :=
  (metaInnerInstructions.filter fun ix =>
    ix.index == UInt8.ofNat outerInstructionIndex).flatMap (·.instructions)

/-- The entries that one outer instruction contributes. -/
def orderOne (programs : List Pubkey) (accountKeys : List Pubkey)
    (metaInnerInstructions : List InnerInstructions) (messageInstruction : CompiledInstruction)
    (outerInstructionIndex : ℕ) : Option (List (IxPair × Option (List IxPair))) := do
  let nonHoistedInnerInstruction ←
    (innerOf metaInnerInstructions outerInstructionIndex).mapM (resolveInner accountKeys)
  let hoisted := hoistKnownPrograms programs nonHoistedInnerInstruction
  let outer :=
    match accountKeys[messageInstruction.programIdIndex.toNat]? with
    | some outerProgramId =>
      if outerProgramId ∈ programs then
        [((outerProgramId, messageInstruction), some nonHoistedInnerInstruction)]
      else []
    | none => []
  return hoisted ++ outer

/-- `order_instructions`; `none` where an inner program index is out of range and the source
panics. -/
def orderInstructions (programs : List Pubkey) (accountKeys : List Pubkey)
    (messageInstructions : List CompiledInstruction)
    (metaInnerInstructions : List InnerInstructions) :
    Option (List (IxPair × Option (List IxPair))) := do
  let ordered ← messageInstructions.zipIdx.mapM fun e =>
    orderOne programs accountKeys metaInnerInstructions e.1 e.2
  return ordered.flatten

end DasIndexer
