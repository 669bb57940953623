import SearchSql.Text.Trim

/-!
# Endpoints

An `Endpoint` is the search engine that requests are sent to.
-/

namespace SearchSql

/-- A search engine, by the base of its URLs. -/
structure Endpoint where
  host : String
deriving DecidableEq, Repr

namespace Endpoint

/-- The host of an engine on the same machine. -/
def defaultHost : String := "http://localhost:9200"

/-- The endpoint at a host, which may be given with slashes at its end. -/
def ofHost (host : String) : Endpoint :=
  ⟨String.ofList (Text.dropEndWhile (· == '/') host.toList)⟩

/-- The endpoint that is used if none is given. -/
def default : Endpoint := ofHost defaultHost

/-- Where searches of an index are sent. -/
def searchUrl (e : Endpoint) (index : String) : String := e.host ++ "/" ++ index ++ "/_search"

end Endpoint

end SearchSql
