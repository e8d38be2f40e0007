namespace PageCache

-- What a mount asks of its cache. An eviction pass brings the number of pages
-- down to the low watermark.
structure Config where
  pageSize : Nat
  pageBudget : Nat
  lowWatermark : Nat
  deriving DecidableEq

inductive ConfigError where
  | zero
  | pageSizeNotPowerOfTwo
  | lowWatermarkAboveBudget
  deriving DecidableEq

def ConfigError.message : ConfigError → String
  | zero => "value must be non-zero"
  | pageSizeNotPowerOfTwo => "page size must be a power of two"
  | lowWatermarkAboveBudget => "low watermark must not exceed the page budget"

-- The limits that a cache works within: the page size is two to the `pageExponent`.
structure Limits where
  pageExponent : Nat
  pageBudget : Nat
  lowWatermark : Nat
  lowWatermark_le : lowWatermark ≤ pageBudget

def Limits.pageSize (limits : Limits) : Nat := Nat.pow 2 limits.pageExponent

namespace Config

-- Half the budget is the low watermark.
def ofBudget (pageSize pageBudget : Nat) : Except ConfigError Config :=
  if pageSize = 0 ∨ pageBudget = 0 then .error .zero
  else .ok ⟨pageSize, pageBudget, pageBudget / 2⟩

-- The budget is the number of whole pages in the given number of bytes, at least one.
def ofCacheSize (pageSize cacheSize : Nat) : Except ConfigError Config :=
  if pageSize = 0 ∨ cacheSize = 0 then .error .zero
  else ofBudget pageSize (max 1 (cacheSize / pageSize))

-- Pages of 128 KiB, 32 MiB of them.
def standard : Config := ⟨128 * 1024, 256, 128⟩

-- The limits that a configuration stands for. The page size is looked at first.
def limits (config : Config) : Except ConfigError Limits :=
  if Nat.pow 2 config.pageSize.log2 = config.pageSize then
    if h : config.lowWatermark ≤ config.pageBudget then
      .ok ⟨config.pageSize.log2, config.pageBudget, config.lowWatermark, h⟩
    else .error .lowWatermarkAboveBudget
  else .error .pageSizeNotPowerOfTwo

theorem pageSize_limits {config : Config} {limits : Limits} (h : config.limits = .ok limits) :
    limits.pageSize = config.pageSize := by
  unfold Config.limits at h
  split at h
  · split at h
    · cases h
      assumption
    · cases h
  · cases h

example : ofCacheSize (128 * 1024) (32 * 1024 * 1024) = .ok standard := rfl

end Config

end PageCache
