import RobotMoney.Indexer.Tick
import RobotMoney.Sql.GroupBy

/-!
# Mint and burn volume (`volume.rs`)

The queries of the watchdog over the tables of the indexer.  Mint volume has three sources: the deposits of the gateway
into a vault, the legs of the router, and the `Deposit` logs of the vaults, less what the same transaction has of the
first two for the same vault.

Every query is made over the rows that pass a filter, and the filter is applied to each source before it is grouped.
-/

namespace RobotMoney.Watchdog

open Evm Indexer SqlTable

/-- A row of a source: the columns that the queries read. -/
structure SourceRow where
  blockNumber : Nat
  txHash : Word
  vault : Address
  amount : Nat
  deriving DecidableEq, Repr

/-- What the rows of `DIRECT_DEPOSITS_NET` are grouped by. -/
def SourceRow.group (r : SourceRow) : Nat × Word × Address := (r.blockNumber, r.txHash, r.vault)

/-- `agent_deposits` where `vault IS NOT NULL`. -/
def agentDeposits (t : Tables) : List SourceRow :=
  t.deposits.filterMap fun r => r.vault.map fun vault => ⟨r.place.blockNumber, r.place.txHash, vault, r.amount⟩

def routerDepositLegs (t : Tables) : List SourceRow :=
  t.events.filterMap fun r =>
    match r with
    | .routerLeg place _ _ vault amount _ _ => some ⟨place.blockNumber, place.txHash, vault, amount⟩
    | _ => none

/-- `vault_transfer_events` of a direction. -/
def vaultTransferEvents (direction : Direction) (t : Tables) : List SourceRow :=
  t.events.filterMap fun r =>
    match r with
    | .transfer place vault dir _ _ assets _ =>
      if dir = direction then some ⟨place.blockNumber, place.txHash, vault, assets⟩ else none
    | _ => none

def SourceRow.entry (r : SourceRow) : Nat × Nat := (r.blockNumber, r.amount)

section Sources

variable (filter : SourceRow → Bool) (t : Tables)

/-- The row of one group of `DIRECT_DEPOSITS_NET`.  The subtraction stops at zero, as `GREATEST` does. -/
def directDepositNet (k : Nat × Word × Address) : Nat :=
  let sum (rows : List SourceRow) := groupSum SourceRow.group SourceRow.amount (rows.filter filter) k
  sum (vaultTransferEvents .deposit t) - sum (routerDepositLegs t) - sum (agentDeposits t)

def directDepositsNet : List (Nat × Nat) :=
  (groups SourceRow.group ((vaultTransferEvents .deposit t).filter filter)).map fun k =>
    (k.1, directDepositNet filter t k)

/-- `mint_sources`: block and amount of each row. -/
def mintSources : List (Nat × Nat) :=
  ((agentDeposits t).filter filter).map SourceRow.entry ++ ((routerDepositLegs t).filter filter).map SourceRow.entry ++
    directDepositsNet filter t

variable {filter t}

theorem directDepositNet_of_empty {k : Nat × Word × Address}
    (h : ∀ r ∈ (vaultTransferEvents .deposit t).filter filter, r.group ≠ k) : directDepositNet filter t k = 0 := by
  simp only [directDepositNet, groupSum_of_not_mem h, Nat.zero_sub]

theorem sumOf_mintSources {K : Finset (Nat × Word × Address)}
    (hagents : ∀ r ∈ (agentDeposits t).filter filter, r.group ∈ K)
    (hlegs : ∀ r ∈ (routerDepositLegs t).filter filter, r.group ∈ K)
    (hdeposits : ∀ r ∈ (vaultTransferEvents .deposit t).filter filter, r.group ∈ K) :
    sumOf Prod.snd (mintSources filter t) =
      ∑ k ∈ K, max (groupSum SourceRow.group SourceRow.amount ((vaultTransferEvents .deposit t).filter filter) k)
        (groupSum SourceRow.group SourceRow.amount ((routerDepositLegs t).filter filter) k +
          groupSum SourceRow.group SourceRow.amount ((agentDeposits t).filter filter) k) := by
  have hentries : ∀ rows : List SourceRow, sumOf Prod.snd (rows.map SourceRow.entry) = sumOf SourceRow.amount rows := by
    intro rows
    simp [sumOf, SourceRow.entry, Function.comp_def]
  have hnet : sumOf Prod.snd (directDepositsNet filter t) = ∑ k ∈ K, directDepositNet filter t k := by
    rw [← sum_groups hdeposits fun k => directDepositNet_of_empty]
    simp [sumOf, directDepositsNet, Function.comp_def]
  rw [mintSources, sumOf_append, sumOf_append, hentries, hentries, hnet, sumOf_eq_sum_groupSum hagents,
    sumOf_eq_sum_groupSum hlegs, ← Finset.sum_add_distrib, ← Finset.sum_add_distrib]
  apply Finset.sum_congr rfl
  intro k _
  simp only [directDepositNet]
  omega

end Sources

def decimalToU128 (n : Nat) : Nat := if n < 2 ^ 128 then n else 0

/-- The bytes of an address, as the column `vault` holds them. -/
def addressBytes (a : Address) : List UInt8 := (List.range 20).map fun i => UInt8.ofNat (a.val / 256 ^ (19 - i))

theorem addressBytes_injective : Function.Injective addressBytes := by
  intro a b h
  have hbyte : ∀ j < 20, a.val / 256 ^ j % 256 = b.val / 256 ^ j % 256 := by
    intro j hj
    have hget := congrArg (fun l => l[19 - j]?) h
    simp only [addressBytes, List.getElem?_map, List.getElem?_range (show 19 - j < 20 by omega), Option.map_some,
      Option.some.injEq, show 19 - (19 - j) = j by omega] at hget
    have hnat := congrArg UInt8.toNat hget
    simpa [UInt8.toNat_ofNat'] using hnat
  have hmod : ∀ k ≤ 20, a.val % 256 ^ k = b.val % 256 ^ k := by
    intro k
    induction k with
    | zero => intro _; simp [Nat.mod_one]
    | succ k ih =>
      intro hk
      rw [Nat.mod_pow_succ, Nat.mod_pow_succ, ih (by omega), hbyte k (by omega)]
  have hpow : 256 ^ 20 = 2 ^ 160 := rfl
  have heq := hmod 20 (le_refl _)
  rw [hpow, Nat.mod_eq_of_lt a.isLt, Nat.mod_eq_of_lt b.isLt] at heq
  exact Fin.ext heq

def atBlock (blockNumber : Nat) (r : SourceRow) : Bool := decide (r.blockNumber = blockNumber)

def atBlockOf (blockNumber : Nat) (vault : List UInt8) (r : SourceRow) : Bool :=
  atBlock blockNumber r && decide (addressBytes r.vault = vault)

def mintVolume (filter : SourceRow → Bool) (t : Tables) : Nat := decimalToU128 (sumOf Prod.snd (mintSources filter t))

def burnVolume (filter : SourceRow → Bool) (t : Tables) : Nat :=
  decimalToU128 (sumOf SourceRow.amount ((vaultTransferEvents .withdrawal t).filter filter))

def mintVolumePerBlock (t : Tables) (blockNumber : Nat) : Nat := mintVolume (atBlock blockNumber) t

def mintVolumePerBlockForVault (t : Tables) (blockNumber : Nat) (vault : List UInt8) : Nat :=
  mintVolume (atBlockOf blockNumber vault) t

def burnVolumePerBlock (t : Tables) (blockNumber : Nat) : Nat := burnVolume (atBlock blockNumber) t

def burnVolumePerBlockForVault (t : Tables) (blockNumber : Nat) (vault : List UInt8) : Nat :=
  burnVolume (atBlockOf blockNumber vault) t

section Window

variable {H : Type} (db : Db H) (blockNumber : Nat) (now window : Int)

/-- `block_before_window`, from `-1` on. -/
def blockBeforeWindow (untilBlock : Nat) (since : Int) : Int :=
  match ((db.blocks.filter fun h => decide (h.blockNumber ≤ untilBlock ∧ h.timestamp < since)).map
    HeaderRow.blockNumber).max? with
  | some b => b
  | none => -1

def inWindow (r : SourceRow) : Bool :=
  decide (blockBeforeWindow db blockNumber (now - window) < r.blockNumber ∧ r.blockNumber ≤ blockNumber)

def inWindowOf (vault : List UInt8) (r : SourceRow) : Bool :=
  inWindow db blockNumber now window r && decide (addressBytes r.vault = vault)

/-- The join with `blocks`: the block has a header, and its timestamp is in the window. -/
def hasHeaderSince (since : Int) (n : Nat) : Bool := (db.timestampOf n).any fun timestamp => decide (since ≤ timestamp)

def mintVolumeSince (filter : SourceRow → Bool) : Nat :=
  decimalToU128 (sumOf Prod.snd ((mintSources filter db.log.tables).filter fun r =>
    hasHeaderSince db (now - window) r.1))

def burnVolumeSince (filter : SourceRow → Bool) : Nat :=
  decimalToU128 (sumOf SourceRow.amount (((vaultTransferEvents .withdrawal db.log.tables).filter filter).filter fun r =>
    hasHeaderSince db (now - window) r.blockNumber))

def mintVolumePerHour : Nat := mintVolumeSince db now window (inWindow db blockNumber now window)

def mintVolumePerHourForVault (vault : List UInt8) : Nat :=
  mintVolumeSince db now window (inWindowOf db blockNumber now window vault)

def burnVolumePerHour : Nat := burnVolumeSince db now window (inWindow db blockNumber now window)

def burnVolumePerHourForVault (vault : List UInt8) : Nat :=
  burnVolumeSince db now window (inWindowOf db blockNumber now window vault)

end Window

end RobotMoney.Watchdog
