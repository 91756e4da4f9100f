import ModelFeed.Settings.Basic
import ModelFeed.SocketAddress
/-!
# Server configuration

What the server needs of its settings: its name, where it listens, and the filters of subscriptions
that do not name any. A bad address is reported before a bad filter.
-/

namespace ModelFeed

structure ServerConfig where
  name : String
  version : String := "0.1.0"
  bind : SocketAddress
  defaultFilters : List Filter

inductive ServerError where
  | invalidAddress (text : String)
  | invalidFilters (error : FilterError)
deriving DecidableEq, Repr

def ServerError.message : ServerError → String
  | .invalidAddress text => "Invalid bind address '" ++ text ++ "'"
  | .invalidFilters error => "Invalid default filters: " ++ error.message

def ServerConfig.ofSettings (settings : Settings) : Except ServerError ServerConfig :=
  match SocketAddress.ofText? settings.bindAddress with
  | none => .error (.invalidAddress settings.bindAddress)
  | some bind =>
    match settings.filters with
    | .error error => .error (.invalidFilters error)
    | .ok defaultFilters => .ok { name := settings.serverName, bind, defaultFilters }

end ModelFeed
