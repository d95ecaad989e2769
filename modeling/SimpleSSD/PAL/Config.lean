import Mathlib.Data.List.Perm.Basic
import SimpleSSD.Util.Def

/-!
# Configuration of the PAL (pal/config.cc, pal.cc:29–95)

The page allocation is a string of the letters C, W, D and P, each once: the order
in which a super block index is taken apart. The superblock setting says which of
the four are members of a super block instead. The timing and the power of the
flash are left out.
-/

namespace SimpleSSD.PAL

/-- `ADDR_INDEX`. -/
inductive AddrIndex where
  | channel | package | die | plane
  deriving DecidableEq, Repr

namespace AddrIndex

/-- All indices, in the order of their values. -/
def all : List AddrIndex := [.channel, .package, .die, .plane]

@[simp] theorem mem_all (idx : AddrIndex) : idx ∈ all := by
  cases idx <;> decide

theorem nodup_all : all.Nodup := by decide

/-- The letter of an index in a configuration string. -/
def ofChar : Char → Option AddrIndex
  | 'C' | 'c' => some .channel
  | 'W' | 'w' => some .package
  | 'D' | 'd' => some .die
  | 'P' | 'p' => some .plane
  | _ => none

end AddrIndex

/-- The fields of `PAL::Config` that decide on addresses. -/
structure Config where
  channel : Nat
  package : Nat
  die : Nat
  plane : Nat
  block : Nat
  page : Nat
  pageSize : Nat
  useMultiPlaneOperation : Bool
  dmaWidth : Nat
  /-- `_superblock`. -/
  superblockString : List Char
  /-- `_pageAllocation`. -/
  pageAllocationString : List Char

/-- What `update` makes of the two strings. -/
structure Settings where
  pageAllocation : List AddrIndex
  /-- The bits of `superblock`. -/
  superblock : AddrIndex → Bool

namespace Config

/-- The loop that parses the page allocation (config.cc:212–249). -/
def parsePageAllocation : List Char → List AddrIndex → List AddrIndex
  | [], pageAllocation => pageAllocation
  | iter :: rest, pageAllocation =>
    let pageAllocation := match AddrIndex.ofChar iter with
      | some idx => pageAllocation ++ [idx]
      | none => pageAllocation
    if pageAllocation.length = 4 then pageAllocation
    else parsePageAllocation rest pageAllocation

/-- `update` (config.cc:191–297). -/
def update (cfg : Config) : Except Fault Settings :=
  if cfg.dmaWidth % 8 ≠ 0 then
    .error (.panic "Config::update" "dmaWidth should be multiple of 8.")
  else
    let parsed := parsePageAllocation cfg.pageAllocationString []
    let fail := ¬ parsed.Nodup ∨ ∃ idx ∈ AddrIndex.all, idx ∉ parsed
    if fail then .error (.panic "Config::update" "Invalid page allocation string")
    else .ok {
      -- with multi-plane operation, P is moved to the front
      pageAllocation := if cfg.useMultiPlaneOperation then .plane :: parsed.erase .plane else parsed
      superblock := fun idx => some idx ∈ cfg.superblockString.map AddrIndex.ofChar ||
        cfg.useMultiPlaneOperation && idx = .plane }

/-- The configured number of an index. -/
def count (cfg : Config) : AddrIndex → Nat
  | .channel => cfg.channel
  | .package => cfg.package
  | .die => cfg.die
  | .plane => cfg.plane

theorem length_parsePageAllocation (s : List Char) (l : List AddrIndex) (h : l.length < 4) :
    (parsePageAllocation s l).length ≤ 4 := by
  induction s generalizing l with
  | nil => exact Nat.le_of_lt h
  | cons c s ih =>
    rw [parsePageAllocation]
    generalize hl : (match AddrIndex.ofChar c with
      | some idx => l ++ [idx]
      | none => l) = l'
    have hlen : l'.length ≤ 4 := by
      rw [← hl]
      split
      · rw [List.length_append, List.length_singleton]
        omega
      · omega
    split
    · exact hlen
    · exact ih l' (by omega)

/-- An accepted page allocation has every index once. -/
theorem update_perm {cfg : Config} {settings : Settings} (h : cfg.update = .ok settings) :
    settings.pageAllocation.Perm AddrIndex.all := by
  rw [update] at h
  split at h
  · cases h
  · dsimp only at h
    split at h
    · cases h
    · next hfail =>
      cases h
      rw [not_or] at hfail
      obtain ⟨hnodup, hall⟩ := hfail
      have hlen := length_parsePageAllocation cfg.pageAllocationString [] (by decide)
      generalize parsePageAllocation cfg.pageAllocationString [] = parsed at *
      have hsub : AddrIndex.all ⊆ parsed := by
        intro idx hidx
        by_contra hmem
        exact hall ⟨idx, hidx, hmem⟩
      have hperm : parsed.Perm AddrIndex.all :=
        ((AddrIndex.nodup_all.subperm hsub).perm_of_length_le hlen).symm
      dsimp only
      split
      · exact (List.perm_cons_erase (hsub (by decide))).symm.trans hperm
      · exact hperm

end Config

/-- `PAL::Parameter`. -/
structure Parameter where
  channel : Nat
  package : Nat
  die : Nat
  plane : Nat
  block : Nat
  page : Nat
  superBlock : Nat
  pageSize : Nat
  superPageSize : Nat
  pageInSuperPage : Nat
  deriving DecidableEq, Repr

namespace Parameter

/-- The number of an index. -/
def count (param : Parameter) : AddrIndex → Nat
  | .channel => param.channel
  | .package => param.package
  | .die => param.die
  | .plane => param.plane

end Parameter

/-- One of the four tests of the constructor (pal.cc:52–87): the super block includes the
index, or it does not. -/
def includeIndex (cfg : Config) (settings : Settings) (sizes : Nat × Nat) (idx : AddrIndex) :
    Nat × Nat :=
  if settings.superblock idx then (sizes.1, sizes.2 * cfg.count idx % 2 ^ 32)
  else (sizes.1 * cfg.count idx % 2 ^ 32, sizes.2)

/-- `PAL(c)` (pal.cc:29–95). Multi-plane operation has set the bit of the planes, so its
test is that of the bit. -/
def Parameter.new (cfg : Config) (settings : Settings) : Except Fault Parameter :=
  let sizes := AddrIndex.all.foldl (includeIndex cfg settings) (cfg.block, cfg.pageSize)
  if cfg.pageSize = 0 then .error (.badAccess "superPageSize / pageSize")
  else
    let pageInSuperPage := sizes.2 / cfg.pageSize
    if cfg.useMultiPlaneOperation ∧ cfg.plane = 0 then .error (.badAccess "pageInSuperPage / plane")
    else .ok {
      channel := cfg.channel
      package := cfg.package
      die := cfg.die
      plane := cfg.plane
      block := cfg.block
      page := cfg.page
      superBlock := sizes.1
      pageSize := cfg.pageSize
      superPageSize := sizes.2
      pageInSuperPage :=
        if cfg.useMultiPlaneOperation then pageInSuperPage / cfg.plane else pageInSuperPage }

/-- The constructor copies the numbers. -/
theorem Parameter.count_of_new {cfg : Config} {settings : Settings} {param : Parameter}
    (h : Parameter.new cfg settings = .ok param) : param.count = cfg.count := by
  rw [Parameter.new] at h
  dsimp only at h
  split at h
  · cases h
  · split at h
    · cases h
    · cases h
      funext idx
      cases idx <;> rfl

end SimpleSSD.PAL
