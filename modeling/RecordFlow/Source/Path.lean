/-! Locators and the paths that they name. -/

namespace RecordFlow.Path

/-- A locator is a path, with or without its scheme. -/
def ofLocator (locator : String) : String := (locator.dropPrefix "file://").toString

def steps (path : String) : List String := path.splitOn "/"

/-- The steps of a path without those that stay where they are. -/
def names (path : String) : List String := (steps path).filter fun step => step != "" && step != "."

end RecordFlow.Path
