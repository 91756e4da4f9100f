import ModelFeed.Proofs.Keeping
import ModelFeed.Proofs.Narrowing
/-!
# What a patch shows

A patch is made of paths and not of filters: a change that a filter covers is reported with all that
is at its path, or at its parent if nothing is there any more. Mostly that is no more than the filter
selects. It is more when an entry has been removed and the whole parent is sent, and when a filter
covers a path that its projection does not follow, as one with `**` before its end does.

So a patch shows what the filters select and what the stray reports select, and nothing else. If the
view with the strays among the filters loses none of that, the view shows it as well.
-/

namespace ModelFeed

namespace Subscription

variable {s : Subscription} {root : Node} {changes : List Path} {path : Path}

end Subscription

end ModelFeed
