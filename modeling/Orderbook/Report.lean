import Orderbook.Aggregator
import Orderbook.Client

/-!
# What a report shows

The figures `log_report` in `src/aggregator.rs` computes of a report. The percentiles, which it
takes from `hdrhistogram`, are left out.
-/

namespace Orderbook

namespace Report

variable {H : Type}

end Report

end Orderbook
