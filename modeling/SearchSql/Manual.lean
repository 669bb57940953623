/-!
# The manual

The command line tool brings a manual of the statement language: an overview, and a page on each
of four topics.

* `Topic` : the topics.
* `Topic.ofName?` : the topic with a given name; each topic has several, in any case.
* `Topic.page` : the page on a topic.
* `Manual.overview` : the overview.
-/

namespace SearchSql

namespace Manual

/-- A text of whole lines. -/
def lines (ls : List String) : String := String.join (ls.map fun l => l ++ "\n")

/-- The table of contents, with a summary of the statement language. -/
def overview : String :=
  lines [
    "ELSEQL DOCUMENTATION",
    "",
    "ELSEQL is a SQL-flavored query language for search engines. Statements are",
    "compiled into a search request whose main query is a Lucene-style query",
    "string.",
    "",
    "DOCUMENTATION CATEGORIES",
    "",
    "  syntax            Statement layout, field lists, facets and scripts",
    "  expressions       WHERE terms, comparison operators, AND/OR/NOT grouping",
    "  filters           FILTER clauses, EXIST and MISSING",
    "  ordering          ORDER BY and LIMIT",
    "",
    "QUICK REFERENCE",
    "",
    "  SELECT *                      All fields",
    "  SELECT a, b.c                 Field projection",
    "  FACETS f                      Term aggregation over f",
    "  SCRIPT id = \"expr\"            Scripted field",
    "  FROM index                    Target index (required)",
    "  WHERE a = 1 AND b > 2         Query string",
    "  FILTER EXIST f                Field presence filter",
    "  ORDER BY a, b DESC            Sort",
    "  LIMIT 10, 20                  Offset 10, page size 20",
    "",
    "Run 'elseql doc <category>' for detailed documentation."]

/-- Statement layout, field lists, facets and scripts. -/
def statementsPage : String :=
  lines [
    "SYNTAX - Statement Layout",
    "",
    "STATEMENT",
    "  SELECT (* | fields) [FACETS fields] [SCRIPT id = \"body\"] FROM index",
    "      [WHERE expr] [FILTER filter] [ORDER BY sort] [LIMIT [offset,] size]",
    "",
    "  Clauses must appear in this order. Keywords are case-insensitive.",
    "",
    "FIELD LISTS",
    "  SELECT name, address.city FROM users",
    "    Comma separated, at least one entry. Dots are part of the name.",
    "",
    "  SELECT * FROM users",
    "    Returns every stored field.",
    "",
    "FACETS",
    "  SELECT * FACETS status, country FROM orders",
    "    Adds a terms aggregation per field.",
    "",
    "SCRIPT",
    "  SELECT * SCRIPT total = \"doc['price'].value * 2\" FROM orders",
    "    Adds a scripted field named 'total'. Only '=' is accepted.",
    "",
    "COMMENTS",
    "  Everything from '#' to the end of the line is ignored.",
    "",
    "  Constraints:",
    "    - Reserved words (SELECT, FROM, AND, IN, BETWEEN, ...) cannot be names",
    "    - Names use letters, digits, '_', '.', and Latin-1 letters"]

/-- Terms, comparison operators and grouping. -/
def expressionsPage : String :=
  lines [
    "EXPRESSIONS - WHERE Clauses",
    "",
    "TERMS",
    "  field = value          field:value",
    "  field != value         NOT field:value",
    "  field < value          field:\x7b* TO value\x7d",
    "  field <= value         field:[* TO value]",
    "  field > value          field:\x7bvalue TO *\x7d",
    "  field >= value         field:[value TO *]",
    "  \"free text\"            passed through as-is",
    "",
    "  Values are quoted strings, numbers, or words starting with a digit",
    "  (2024.01.31, 007).",
    "",
    "NOT",
    "  NOT status = closed    NOT status:closed",
    "    Negates the single term that follows it.",
    "",
    "AND / OR",
    "  Terms are joined left to right. There are no parentheses.",
    "",
    "  a = 1 AND b = 2 OR c = 3",
    "    Groups as (a AND b) OR c",
    "",
    "  a = 1 OR b = 2 AND c = 3",
    "    Groups as (a OR b) AND c",
    "",
    "  A change of connective wraps everything before it."]

/-- Filters and tests for the presence of a field. -/
def filtersPage : String :=
  lines [
    "FILTERS - FILTER Clauses",
    "",
    "EXPRESSION FILTER",
    "  SELECT * FROM logs FILTER level = error",
    "    Same term syntax as WHERE; sent as a filter query.",
    "",
    "PRESENCE",
    "  SELECT * FROM users FILTER EXIST email",
    "    Documents that have a value for 'email'.",
    "",
    "  SELECT * FROM users FILTER MISSING email",
    "    Documents without a value for 'email'.",
    "",
    "  Constraints:",
    "    - EXIST and MISSING take exactly one field",
    "    - They cannot be combined with AND/OR"]

/-- Sorting and paging. -/
def orderingPage : String :=
  lines [
    "ORDERING - ORDER BY and LIMIT",
    "",
    "ORDER BY",
    "  ORDER BY created DESC, name",
    "    Each field may carry ASC or DESC. ASC is the default.",
    "",
    "LIMIT",
    "  LIMIT 20",
    "    First 20 hits.",
    "",
    "  LIMIT 40, 20",
    "    Skip 40 hits, return the next 20.",
    "",
    "  Without LIMIT the offset is 0 and the page size is 10."]

end Manual

/-- The topics of the manual. -/
inductive Topic where
  | statements
  | expressions
  | filters
  | ordering
deriving DecidableEq, Repr

namespace Topic

/-- The names of the topics, in lower case. -/
def names : List (String × Topic) :=
  [("syntax", .statements), ("select", .statements), ("expressions", .expressions),
    ("expression", .expressions), ("where", .expressions), ("ops", .expressions),
    ("filters", .filters), ("filter", .filters), ("ordering", .ordering), ("order", .ordering),
    ("limit", .ordering), ("paging", .ordering)]

/-- The topic with a name, whatever the case of its letters. -/
def ofName? (name : String) : Option Topic := names.lookup (name.map Char.toLower)

/-- The page on a topic. -/
def page : Topic → String
  | .statements => Manual.statementsPage
  | .expressions => Manual.expressionsPage
  | .filters => Manual.filtersPage
  | .ordering => Manual.orderingPage

end Topic

end SearchSql
