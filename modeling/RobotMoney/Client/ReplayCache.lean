import RobotMoney.Gateway.Payments

/-!
# The replay cache of the payment client

`replay_cache.rs` keeps one file with the payments this installation has broadcast, keyed by a payment id that the
client computes itself.  This module has the id, the file with its reads and rewrites, and the requests of
`rmpc deposit`; the id the gateway computes for the same deposit is `paymentId`.
-/

namespace RobotMoney.Client

open Evm

variable {W : Type}

/-- The parts of `keccak256(abi.encode(..))` over static fields: the words of an address and of a number, and the hash
of a list of words. -/
structure AbiHash (W : Type) where
  word : Address → W
  number : Fin (2 ^ 256) → W
  keccak256 : List W → W

def abiHash (enc : PaymentEncoding W) : AbiHash W := ⟨enc.word, enc.number, fun fields => enc.keccak (.encode fields)⟩

/-- A `u8` as a `U256`. -/
def ofU8 (n : Fin (2 ^ 8)) : Fin (2 ^ 256) := Fin.castLE (by decide) n

/-- A `u64` as a `U256`. -/
def ofU64 (n : Fin (2 ^ 64)) : Fin (2 ^ 256) := Fin.castLE (by decide) n

private theorem ofU64_injective : Function.Injective ofU64 := Fin.castLE_injective (by decide)

def opDeposit : Fin (2 ^ 8) := 1

def computePaymentIdWithOp (h : AbiHash W) (opKind : Fin (2 ^ 8)) (chainId : Fin (2 ^ 64)) (gateway agent : Address)
    (orderId : W) (amount : Fin (2 ^ 256)) (idempotencyKey : W) : W :=
  h.keccak256 [h.number (ofU8 opKind), h.number (ofU64 chainId), h.word gateway, h.word agent, orderId,
    h.number amount, idempotencyKey]

def computePaymentId (h : AbiHash W) (chainId : Fin (2 ^ 64)) (gateway agent : Address) (orderId : W)
    (amount : Fin (2 ^ 256)) (idempotencyKey : W) : W :=
  computePaymentIdWithOp h opDeposit chainId gateway agent orderId amount idempotencyKey

/-- The transaction hash an entry names, with the deadline that is kept for the audit. -/
structure CacheEntry (W : Type) where
  orderId : W
  idempotencyKey : W
  deadline : Nat
  txHash : W
  deriving DecidableEq

/-- The file `submitted_order_ids.json`: a missing or blank file reads as no entries, and one that does not parse fails
every read. -/
inductive CacheFile (W : Type) where
  | readable (entries : W → Option (CacheEntry W))
  | damaged

/-- How a rewrite of the file goes: it fails before the file is truncated, after the truncation with nothing written,
or with a part of the text written. -/
inductive FileWrite where
  | written
  | untouched
  | emptied
  | torn
  deriving DecidableEq, Repr

namespace CacheFile

/-- `lookup`, once the file is open and locked: `none` when it does not parse. -/
def lookup : CacheFile W → W → Option (Option W)
  | .readable entries, key => some ((entries key).map (·.txHash))
  | .damaged, _ => none

/-- `with_locked_file`: the new file, and whether the rewrite succeeded. -/
def rewrite (change : (W → Option (CacheEntry W)) → W → Option (CacheEntry W)) (w : FileWrite) :
    CacheFile W → CacheFile W × Bool
  | .damaged => (.damaged, false)
  | .readable entries =>
    match w with
    | .written => (.readable (change entries), true)
    | .untouched => (.readable entries, false)
    | .emptied => (.readable fun _ => none, false)
    | .torn => (.damaged, false)

variable [DecidableEq W]

def insert (f : CacheFile W) (w : FileWrite) (key : W) (entry : CacheEntry W) : CacheFile W × Bool :=
  f.rewrite (fun entries => Function.update entries key (some entry)) w

def remove (f : CacheFile W) (w : FileWrite) (key : W) : CacheFile W × Bool :=
  f.rewrite (fun entries => Function.update entries key none) w

end CacheFile

/-- `WriteRequest`: the identity of one write. -/
structure WriteRequest (W : Type) where
  gateway : Address
  orderId : W
  idempotencyKey : W
  amount : Fin (2 ^ 256)
  replayOp : Option (Fin (2 ^ 8))
  deriving DecidableEq

/-- The cache key of a request, as `replay_lookup`, `replay_insert` and `replay_remove` compute it. -/
def WriteRequest.replayKey (h : AbiHash W) (chainId : Fin (2 ^ 64)) (agent : Address) (r : WriteRequest W) : W :=
  match r.replayOp with
  | none => computePaymentId h chainId r.gateway agent r.orderId r.amount r.idempotencyKey
  | some op => computePaymentIdWithOp h op chainId r.gateway agent r.orderId r.amount r.idempotencyKey

/-- The fields of the configuration a deposit reads. -/
structure Config where
  chainId : Fin (2 ^ 64)
  gatewayAddress : Address
  vaultAddress : Address
  deriving DecidableEq

/-- The arguments of `rmpc deposit`. -/
structure DepositArgs (W : Type) where
  orderId : W
  amount : Fin (2 ^ 256)
  idempotencyKey : Option W
  vault : Option Address
  deriving DecidableEq

namespace DepositArgs

variable (cfg : Config) (agent : Address) (args : DepositArgs W)

def key : W := args.idempotencyKey.getD args.orderId

def destination : Address := args.vault.getD cfg.vaultAddress

/-- The request `deposit::run` opens its session with. -/
def writeRequest : WriteRequest W := ⟨cfg.gatewayAddress, args.orderId, args.key, args.amount, none⟩

/-- The call of `depositTo` that `deposit::run` encodes. -/
def depositToCall (deadline gasLeft : Nat) : DepositTo W :=
  ⟨args.orderId, args.amount, deadline, args.key, args.destination cfg, [], gasLeft⟩

def replayKey (enc : PaymentEncoding W) : W := (args.writeRequest cfg).replayKey (abiHash enc) cfg.chainId agent

def gatewayPaymentId (enc : PaymentEncoding W) (deadline gasLeft : Nat) : W :=
  paymentId enc ⟨cfg.gatewayAddress, ofU64 cfg.chainId⟩ ((args.depositToCall cfg deadline gasLeft).intent agent)

end DepositArgs

/-- What the cache key is computed from. -/
structure KeyFields (W : Type) where
  chainId : Fin (2 ^ 64)
  gateway : Address
  agent : Address
  orderId : W
  amount : Fin (2 ^ 256)
  idempotencyKey : W
  deriving DecidableEq

def DepositArgs.keyFields (cfg : Config) (agent : Address) (args : DepositArgs W) : KeyFields W :=
  ⟨cfg.chainId, cfg.gatewayAddress, agent, args.orderId, args.amount, args.key⟩

section Ids

variable (enc : PaymentEncoding W) {cfg₁ cfg₂ : Config} {agent₁ agent₂ : Address} {args₁ args₂ : DepositArgs W}

private theorem replayKey_eq_iff : args₁.replayKey cfg₁ agent₁ enc = args₂.replayKey cfg₂ agent₂ enc ↔
      args₁.keyFields cfg₁ agent₁ = args₂.keyFields cfg₂ agent₂ := by
  simp only [DepositArgs.replayKey, WriteRequest.replayKey, DepositArgs.writeRequest, computePaymentId,
    computePaymentIdWithOp, abiHash, enc.keccak_injective.eq_iff, Preimage.encode.injEq, List.cons.injEq,
    enc.number_injective.eq_iff, enc.word_injective.eq_iff, ofU64_injective.eq_iff, true_and, and_true,
    DepositArgs.keyFields, KeyFields.mk.injEq]

private theorem gatewayPaymentId_eq_iff {deadline₁ deadline₂ gas₁ gas₂ : Nat} :
    args₁.gatewayPaymentId cfg₁ agent₁ enc deadline₁ gas₁ = args₂.gatewayPaymentId cfg₂ agent₂ enc deadline₂ gas₂ ↔
      args₁.keyFields cfg₁ agent₁ = args₂.keyFields cfg₂ agent₂ ∧ args₁.destination cfg₁ = args₂.destination cfg₂ := by
  simp only [DepositArgs.gatewayPaymentId, paymentId, DepositArgs.depositToCall, DepositTo.intent,
    enc.keccak_injective.eq_iff, Preimage.encode.injEq, List.cons.injEq, enc.number_injective.eq_iff,
    enc.word_injective.eq_iff, ofU64_injective.eq_iff, List.map_nil, true_and, and_true, DepositArgs.keyFields,
    KeyFields.mk.injEq]
  tauto

end Ids

/-- The cache key agrees with the id on chain for a pair of deposits exactly when the pair names one vault or differs
in a field of the key. -/
theorem replay_key_agrees_iff (enc : PaymentEncoding W) (cfg₁ cfg₂ : Config) (agent₁ agent₂ : Address)
    (args₁ args₂ : DepositArgs W) (deadline₁ deadline₂ gas₁ gas₂ : Nat) :
    (args₁.replayKey cfg₁ agent₁ enc = args₂.replayKey cfg₂ agent₂ enc ↔
        args₁.gatewayPaymentId cfg₁ agent₁ enc deadline₁ gas₁ =
          args₂.gatewayPaymentId cfg₂ agent₂ enc deadline₂ gas₂) ↔
      args₁.destination cfg₁ = args₂.destination cfg₂ ∨
        args₁.keyFields cfg₁ agent₁ ≠ args₂.keyFields cfg₂ agent₂ := by
  rw [replayKey_eq_iff, gatewayPaymentId_eq_iff]
  constructor
  · intro h
    by_cases hkey : args₁.keyFields cfg₁ agent₁ = args₂.keyFields cfg₂ agent₂
    · exact .inl (h.1 hkey).2
    · exact .inr hkey
  · rintro (hvault | hkey)
    · exact ⟨fun hkey => ⟨hkey, hvault⟩, fun h => h.1⟩
    · exact ⟨fun h => (hkey h).elim, fun h => (hkey h.1).elim⟩

/-- Two deposits under one order id, into the configured vault 9 and into the vault 10: one cache key, two ids on
chain. -/
theorem replay_key_of_second_vault :
    let cfg : Config := ⟨8453, 50, 9⟩
    let first : DepositArgs (List Nat) := ⟨[1], 5, none, none⟩
    let second : DepositArgs (List Nat) := ⟨[1], 5, none, some 10⟩
    ¬ (first.replayKey cfg 7 sampleEncoding = second.replayKey cfg 7 sampleEncoding ↔
      first.gatewayPaymentId cfg 7 sampleEncoding 100 3000000 =
        second.gatewayPaymentId cfg 7 sampleEncoding 100 3000000) := by
  intro cfg first second h
  have hkey : first.replayKey cfg 7 sampleEncoding = second.replayKey cfg 7 sampleEncoding := rfl
  have hvault := ((gatewayPaymentId_eq_iff sampleEncoding).1 (h.1 hkey)).2
  exact absurd hvault (by decide)

end RobotMoney.Client
